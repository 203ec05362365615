import Gateware.Diagnostic.Basic
import Gateware.Text.Quoted

/-!
# Faults

The reasons for which building a value, a format or a statement is refused.  A fault
is a cause with its data; its kind and its wording are functions of the cause.
Objects that a message names are kept in their canonical text.
-/

set_option autoImplicit false

namespace Gateware

inductive Fault.Kind where
  | type
  | value
  | index
  | form
  | recursion
  | denied
  | overflow
  deriving DecidableEq, Repr

inductive Fault.Target where
  | value
  | pins
  deriving DecidableEq, Repr

def Fault.Target.text : Fault.Target → String
  | .value => "value"
  | .pins => "IO value"

inductive Fault.CharacterLimit where
  | signed
  | alignment
  | sign
  | zeroFill
  | alternate
  | grouping
  | width
  deriving DecidableEq, Repr

def Fault.CharacterLimit.text : Fault.CharacterLimit → String
  | .signed => "Cannot print signed value"
  | .alignment => "Alignment '=' is not allowed"
  | .sign => "Sign is not allowed"
  | .zeroFill => "Zero fill is not allowed"
  | .alternate => "Alternate form is not allowed"
  | .grouping => "Cannot specify '_'"
  | .width => "Value width must be divisible by 8"

/-- A reason to refuse what is being built, with the data that its wording needs. -/
inductive Fault where
  -- shapes, constants and casts
  | signedWidth (width : Int)
  | unsignedWidth (width : Int)
  | rangeStep
  | notShape (object : String)
  | notValue (object : String)
  | notConstant (value : String)
  | shapeCycle (name : String)
  | valueCycle (name : String)
  | endlessBank
  -- enumerations
  | unfoldedMembers
  | notMember (object enumeration : String)
  | noSuchMember (number : Int) (enumeration : String)
  -- operators and selections
  | missingInDomain (domain what : String)
  | signedShift
  | emptySigned
  | bitIndex (index width : Int) (target : Fault.Target)
  | sliceStart (position width : Int) (target : Fault.Target)
  | sliceStop (position width : Int) (target : Fault.Target)
  | sliceOrder (start stop : Int)
  | sliceStep
  | valueAsIndex (target : Fault.Target)
  | partWidth (width : Int)
  | partStride (stride : Int)
  | signedOffset
  | wordWidth (width : Int)
  | replication (count : Int)
  -- patterns
  | patternAlphabet (pattern : String)
  | patternWidth (pattern : String) (width : Nat)
  | patternKind (object : String)
  -- initial values
  | customInitial (shape : String)
  | customInitialShape (custom shape got : String)
  | initialKind (object : String)
  | initialAtEnd (number : Int) (range : String)
  | initialOutside (number : Int) (range : String)
  -- banks
  | frozenBank
  | bankIndex (index : Int)
  | noField (object field : String)
  -- templates and their arguments
  | loneBrace
  | openField
  | noConversion
  | textAfterConversion
  | unknownConversion (conversion : Char)
  | manualThenAutomatic
  | automaticThenManual
  | fieldNumber
  | missingKeyword (name : String)
  | missingPositional (index : Nat)
  | unusedPositional (index : Nat)
  | unusedKeyword (name : String)
  | valueAsText (value : String)
  | customAsText (name : String)
  | formatAsText (format : String)
  | formatSpecifier (specifier : String)
  -- specifiers
  | specifier (text : String)
  | centredValue
  | commaGroupedValue
  | numberValue
  | characterValue (limit : Fault.CharacterLimit) (type : Char)
  | integerPrecision
  | integerType (type : Char)
  | groupedType (grouping type : Char)
  | characterSign
  | characterAlternate
  | characterCode
  | textType (type : Char)
  | textSign
  | textAlternate
  | textAlignment
  -- printers and pins
  | variantKind (object : String)
  | metadataLength (length width : Nat)
  | notPins (object : String)
  /-- A fault that a custom shape or a custom value reports. -/
  | custom (kind : Fault.Kind) (text : String)
  /-- A warning that the filter in force turned into an error. -/
  | denied (diagnostic : Diagnostic)
  /-- A sum of positions or of widths that leaves its word.  Nothing recovers from it. -/
  | overflow
  deriving DecidableEq, Repr

namespace Fault

def Kind.text : Kind → String
  | .type => "type error"
  | .value => "value error"
  | .index => "index error"
  | .form => "syntax error"
  | .recursion => "recursion error"
  | .denied => "denied warning"
  | .overflow => "panic"

def kind : Fault → Kind
  | signedWidth .. | unsignedWidth .. | notShape .. | notValue .. | notConstant ..
  | unfoldedMembers | notMember .. | signedShift | valueAsIndex .. | partWidth ..
  | partStride .. | signedOffset | wordWidth .. | replication .. | customInitial ..
  | initialKind .. | noField .. | valueAsText .. | customAsText .. | formatAsText ..
  | variantKind .. | notPins .. => .type
  | rangeStep | noSuchMember .. | missingInDomain .. | emptySigned | sliceStep
  | customInitialShape .. | frozenBank | loneBrace | openField | noConversion
  | textAfterConversion | unknownConversion .. | manualThenAutomatic | automaticThenManual
  | fieldNumber | unusedPositional .. | unusedKeyword .. | formatSpecifier ..
  | specifier .. | centredValue | commaGroupedValue | numberValue | characterValue ..
  | integerPrecision | integerType .. | groupedType .. | characterSign | characterAlternate
  | characterCode | textType .. | textSign | textAlternate | textAlignment
  | metadataLength .. => .value
  | bitIndex .. | sliceStart .. | sliceStop .. | sliceOrder .. | bankIndex ..
  | missingKeyword .. | missingPositional .. => .index
  | patternAlphabet .. | patternWidth .. | patternKind .. | initialAtEnd ..
  | initialOutside .. => .form
  | shapeCycle .. | valueCycle .. | endlessBank => .recursion
  | custom kind _ => kind
  | denied _ => .denied
  | overflow => .overflow

def message : Fault → String
  | signedWidth width => s!"Width of a signed value must be a positive integer, not {width}"
  | unsignedWidth width =>
      s!"Width of an unsigned value must be zero or a positive integer, not {width}"
  | rangeStep => "range() arg 3 must not be zero"
  | notShape object => s!"Object {object} cannot be converted to an Amaranth shape"
  | notValue object => s!"Object {object} cannot be converted to an Amaranth value"
  | notConstant value => s!"Value {value} cannot be converted to an Amaranth constant"
  | shapeCycle name => s!"Shape-castable object {name} casts to itself"
  | valueCycle name => s!"Value-castable object {name} casts to itself"
  | endlessBank => "Array contains itself"
  | unfoldedMembers =>
      "Only enumerations whose members have constant-castable values can be used in "
        ++ "Amaranth code"
  | notMember object enumeration => s!"{object} is not a member of {enumeration}"
  | noSuchMember number enumeration => s!"{number} is not a valid {enumeration}"
  | missingInDomain domain what => s!"Domain '{domain}' does not have a {what}"
  | signedShift => "Shift amount must be unsigned"
  | emptySigned => "Cannot create a 0-width signed value"
  | bitIndex index width target =>
      s!"Index {index} is out of bounds for a {width}-bit {target.text}"
  | sliceStart position width target =>
      s!"Cannot start slice {position} bits into {width}-bit {target.text}"
  | sliceStop position width target =>
      s!"Cannot stop slice {position} bits into {width}-bit {target.text}"
  | sliceOrder start stop => s!"Slice start {start} must be less than slice stop {stop}"
  | sliceStep => "slice step cannot be zero"
  | valueAsIndex .value => "Cannot index value with a value; use Value.bit_select() instead"
  | valueAsIndex .pins => "Cannot index IO value with a value"
  | partWidth width => s!"Part width must be a non-negative integer, not {width}"
  | partStride stride => s!"Part stride must be a positive integer, not {stride}"
  | signedOffset => "Part offset must be unsigned"
  | wordWidth width => s!"Word width must be a positive integer, not {width}"
  | replication count => s!"Replication count must be a non-negative integer, not {count}"
  | patternAlphabet pattern =>
      s!"Pattern '{pattern}' must consist of 0, 1, and - (don't care) bits, "
        ++ "and may include whitespace"
  | patternWidth pattern width =>
      s!"Pattern '{pattern}' must have the same width as match value (which is {width})"
  | patternKind object =>
      s!"Pattern must be a string or a constant-castable expression, not {object}"
  | customInitial shape => s!"Initial value must be a constant initializer of {shape}"
  | customInitialShape name shape got =>
      s!"Constant returned by {name}.const() must have the shape that it casts to, "
        ++ s!"{shape}, and not {got}"
  | initialKind object =>
      s!"Initial value must be a constant-castable expression, not {object}"
  | initialAtEnd number range =>
      s!"Initial value {number} equals the non-inclusive end of the signal shape {range}; "
        ++ "this is likely an off-by-one error"
  | initialOutside number range =>
      s!"Initial value {number} is not within the signal shape {range}"
  | frozenBank =>
      "Array can no longer be mutated after it was indexed with a value at <location>"
  | bankIndex index => s!"Array index {index} is out of range"
  | noField object field => s!"{object} has no field '{field}'"
  | loneBrace => "Single '\x7d' encountered in format string"
  | openField => "expected '\x7d' before end of string"
  | noConversion => "end of string while looking for conversion specifier"
  | textAfterConversion => "expected ':' after conversion specifier"
  | unknownConversion conversion => s!"Unknown conversion specifier {conversion}"
  | manualThenAutomatic =>
      "cannot switch from manual field specification to automatic field numbering"
  | automaticThenManual =>
      "cannot switch from automatic field numbering to manual field specification"
  | fieldNumber => "Too many decimal digits in format string"
  | missingKeyword name => "Missing keyword argument " ++ Text.quote name
  | missingPositional index =>
      s!"Replacement index {index} out of range for positional args tuple"
  | unusedPositional index => s!"format positional argument {index} was not used"
  | unusedKeyword name => "format keyword argument " ++ Text.quote name ++ " was not used"
  | valueAsText value => s!"Value {value} cannot be converted to string"
  | customAsText name => s!"Value-castable object {name} cannot be converted to string"
  | formatAsText format =>
      s!"Format object {format} cannot be converted to string. Use `repr` to print the AST, "
        ++ "or pass it to the `Print` statement."
  | formatSpecifier text =>
      "Format specifiers (" ++ Text.quote text ++ ") cannot be used for 'Format' objects"
  | specifier text => "Invalid format specifier " ++ Text.quote text
  | centredValue => "Alignment '^' is not supported"
  | commaGroupedValue => "Grouping option ',' is not supported"
  | numberValue => "Presentation type 'n' is not supported"
  | characterValue limit type => s!"{limit.text} with format specifier '{type}'"
  | integerPrecision => "Precision not allowed in integer format specifier"
  | integerType type => s!"Unknown format code '{type}' for object of type 'int'"
  | groupedType grouping type => s!"Cannot specify '{grouping}' with '{type}'."
  | characterSign => "Sign not allowed with integer format specifier 'c'"
  | characterAlternate => "Alternate form (#) not allowed with integer format specifier 'c'"
  | characterCode => "%c arg not in range(0x110000)"
  | textType type => s!"Unknown format code '{type}' for object of type 'str'"
  | textSign => "Sign not allowed in string format specifier"
  | textAlternate => "Alternate form (#) not allowed in string format specifier"
  | textAlignment => "'=' alignment not allowed in string format specifier"
  | variantKind object => s!"Variant values must be integers, not {object}"
  | metadataLength length width =>
      s!"Metadata length ({length}) doesn't match port width ({width})"
  | notPins object => s!"Object {object} cannot be converted to an IO value"
  | custom _ text => text
  | denied diagnostic => diagnostic.message
  | overflow => "arithmetic operation overflowed"

end Fault

end Gateware
