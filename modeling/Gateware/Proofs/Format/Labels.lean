import Gateware.Proofs.Format.Template
import Gateware.Proofs.Shape.Unify
import Gateware.Proofs.Value.Sorting

/-!
# Printed labels

A printer of labels compiles to one switch, printed as a string: at a number of the printed
value it has the bytes of the label of the first variant that the number equals.  What can fail
is the remark on a variant that the value never equals; the switch itself always has a width in
which strings are printed, since every label is made of whole bytes.
-/

set_option autoImplicit false

namespace Gateware

open Build

/-! ## Bytes -/

namespace Binary

def bytes : Nat → Nat → List UInt8
  | 0, _ => []
  | count + 1, number => UInt8.ofNat number :: bytes count (number / 256)

def ofBytes (encoded : List UInt8) : Nat :=
  encoded.foldr (fun byte n => byte.toNat + 256 * n) 0

theorem ofBytes_cons (byte : UInt8) (encoded : List UInt8) :
    ofBytes (byte :: encoded) = byte.toNat + 256 * ofBytes encoded := rfl

theorem ofBytes_lt (encoded : List UInt8) : ofBytes encoded < 2 ^ (encoded.length * 8) := by
  induction encoded with
  | nil => decide
  | cons byte encoded ih =>
      have low : byte.toNat < 256 := byte.toNat_lt
      have more : 2 ^ ((byte :: encoded).length * 8) = 256 * 2 ^ (encoded.length * 8) := by
        rw [List.length_cons, Nat.succ_mul, Nat.pow_add, Nat.mul_comm]
      rw [ofBytes_cons, more]
      omega

theorem bytes_zero (count : Nat) : bytes count 0 = List.replicate count 0 := by
  induction count with
  | zero => rfl
  | succ count ih => exact congrArg (0 :: ·) ih

theorem bytes_ofBytes (encoded : List UInt8) (extra : Nat) :
    bytes (encoded.length + extra) (ofBytes encoded) = encoded ++ List.replicate extra 0 := by
  induction encoded with
  | nil => rw [List.length_nil, Nat.zero_add, List.nil_append]; exact bytes_zero extra
  | cons byte encoded ih =>
      have low : byte.toNat < 256 := byte.toNat_lt
      have first : UInt8.ofNat (byte.toNat + 256 * ofBytes encoded) = byte := by
        apply UInt8.toNat_inj.mp
        rw [UInt8.toNat_ofNat']
        omega
      have later : (byte.toNat + 256 * ofBytes encoded) / 256 = ofBytes encoded := by omega
      rw [List.length_cons, Nat.add_right_comm, bytes, ofBytes_cons, first, later, ih]
      rfl

end Binary

namespace Shape

theorem dvd_widest {shapes : List Shape} {signed : Bool} {unit : Nat}
    (whole : ∀ shape ∈ shapes, unit ∣ shape.width) : unit ∣ widest shapes signed := by
  refine List.foldlRecOn (motive := fun width => unit ∣ width) _ _ (Nat.dvd_zero unit) ?_
  intro width divides shape kept
  change unit ∣ max width shape.width
  rcases Nat.le_total width shape.width with above | below
  · rw [Nat.max_eq_right above]
    exact whole shape (List.mem_of_mem_filter kept)
  · rw [Nat.max_eq_left below]
    exact divides

end Shape

/-! ## Cases -/

namespace Printer

/-- The keys of a variant: a number that the value never equals has none. -/
def variantKeys (shape : Shape) (number : Int) : List String :=
  if number ∈ shape then [Binary.text number shape.width] else []

/-- The case of a variant, which no number takes that differs from it. -/
def variantCase (shape : Shape) (variant : Int × String) : Keys × Value :=
  (some (variantKeys shape variant.1), label variant.2)

def labelCases (shape : Shape) (variants : List (Int × String)) : List (Keys × Value) :=
  variants.map (variantCase shape) ++ [(none, label "[unknown]")]

def variantRemark (shape : Shape) (variant : Int × String) : Program.Emit :=
  Pattern.unmatchable shape (.int variant.1) (Const.ofInt variant.1)

def variantRemarks (shape : Shape) (variants : List (Int × String)) : List Program.Emit :=
  (variants.filter fun variant => variant.1 ∉ shape).map (variantRemark shape)

/-- The label of a number: that of the first variant which the number equals. -/
def labelAt (variants : List (Int × String)) (number : Int) : String :=
  ((variants.find? fun variant => variant.1 = number).map Prod.snd).getD "[unknown]"

/-- Every variant that the value never equals is let through. -/
def Granted (session : Session) (shape : Shape) (variants : List (Int × String)) : Prop :=
  session.Denies .unmatchablePattern → ∀ variant ∈ variants, variant.1 ∈ shape

variable {session : Session} {shape : Shape} {variants : List (Int × String)}

/-! ## Runs -/

theorem castConst_int (design : Design) (number : Int) :
    design.castConst (.int number) = .ok (Const.ofInt number) := rfl

def keyed (shape : Shape) (given : Option (List Pattern) × Value) : Build (Keys × Value) := do
  return (← Pattern.caseKeys given.1 shape, given.2)

def variantPatterns (variant : Int × String) : Option (List Pattern) × Value :=
  (some [.operand (.int variant.1)], label variant.2)

theorem variantRemarks_cons (variant : Int × String) :
    variantRemarks shape (variant :: variants) =
      variantRemarks shape [variant] ++ variantRemarks shape variants := by
  rw [← List.singleton_append, variantRemarks, List.filter_append, List.map_append]
  rfl

theorem granted_cons {variant : Int × String} :
    Granted session shape (variant :: variants) ↔
      Granted session shape [variant] ∧ Granted session shape variants := by
  simp [Granted, forall_and]

theorem gives_keyed_variant (valid : shape.Valid) {variant : Int × String}
    (granted : Granted session shape [variant]) :
    Gives (keyed shape (variantPatterns variant)) session (variantCase shape variant)
      (session.hearing (variantRemarks shape [variant])) := by
  have cast := castConst_int session.design variant.1
  have keys : Gives (Pattern.keys [.operand (.int variant.1)] shape) session
      (variantKeys shape variant.1) (session.hearing (variantRemarks shape [variant])) := by
    apply (Pattern.gives_keys_iff valid).mpr
    by_cases inside : variant.1 ∈ shape
    · refine ⟨_, [], ⟨.kept (.const cast inside) .nil, fun _ => rfl⟩, ?_, ?_⟩
      · rw [variantKeys, if_pos inside]
        rfl
      · simp [variantRemarks, inside]
    · have silent : ¬ session.Denies .unmatchablePattern :=
        fun denies => inside (granted denies variant List.mem_cons_self)
      refine ⟨[], [variantRemark shape variant], ⟨.dropped (.const cast inside) .nil,
        fun denies => absurd denies silent⟩, ?_, ?_⟩
      · rw [variantKeys, if_neg inside]
        rfl
      · simp [variantRemarks, inside]
  have caseKeys : Gives (Pattern.caseKeys (variantPatterns variant).1 shape) session
      (some (variantKeys shape variant.1)) (session.hearing (variantRemarks shape [variant])) :=
    gives_bind.mpr ⟨_, _, keys, gives_pure.mpr ⟨rfl, rfl⟩⟩
  exact gives_bind.mpr ⟨_, _, caseKeys, gives_pure.mpr ⟨rfl, rfl⟩⟩

theorem runIn_keyed_variant (valid : shape.Valid) {variant : Int × String}
    {filter : Diagnostic.Filter} (outside : variant.1 ∉ shape)
    (enclosing : session.enclosing = some filter) (denies : filter.Denies .unmatchablePattern) :
    (runIn session (keyed shape (variantPatterns variant))).1 =
      .error (.denied ((variantRemark shape variant).reported filter.level)) := by
  have cast := castConst_int session.design variant.1
  have ends : Pattern.Ends session shape (.operand (.int variant.1)) _ _ :=
    .denied (.const cast outside) enclosing denies
  have run : runIn session (Pattern.keys [.operand (.int variant.1)] shape) = (.error _, _) :=
    (Pattern.runIn_keys_error_iff valid).mpr
      ⟨[], _, [], [], [], _, rfl, ⟨.nil, fun _ => rfl⟩, ends, rfl⟩
  exact congrArg Prod.fst (runIn_bind_of_fault (runIn_bind_of_fault run))

theorem gives_keyed_variants (valid : shape.Valid) (granted : Granted session shape variants) :
    Gives ((variants.map variantPatterns ++ [(none, label "[unknown]")]).mapM (keyed shape))
      session (labelCases shape variants) (session.hearing (variantRemarks shape variants)) := by
  induction variants generalizing session with
  | nil =>
      have silent : variantRemarks shape [] = [] := rfl
      rw [silent, Session.hearing_nil]
      rfl
  | cons variant variants ih =>
      obtain ⟨here, later⟩ := granted_cons.mp granted
      have laterGranted :
          Granted (session.hearing (variantRemarks shape [variant])) shape variants :=
        fun denies => later (Pattern.denies_hearing.mp denies)
      rw [List.map_cons, List.cons_append, List.mapM_cons]
      refine gives_bind.mpr ⟨_, _, gives_keyed_variant valid here, ?_⟩
      refine gives_bind.mpr ⟨_, _, ih laterGranted, gives_pure.mpr ⟨rfl, ?_⟩⟩
      rw [← Session.hearing_append, ← variantRemarks_cons]

theorem runIn_keyed_variants (valid : shape.Valid) {filter : Diagnostic.Filter}
    (enclosing : session.enclosing = some filter) (denies : filter.Denies .unmatchablePattern)
    (refused : ¬ ∀ variant ∈ variants, variant.1 ∈ shape) :
    ∃ variant ∈ variants, variant.1 ∉ shape ∧
      (runIn session ((variants.map variantPatterns ++
        [(none, label "[unknown]")]).mapM (keyed shape))).1 =
          .error (.denied ((variantRemark shape variant).reported filter.level)) := by
  induction variants generalizing session with
  | nil => exact absurd (by simp) refused
  | cons variant variants ih =>
      rw [List.map_cons, List.cons_append, List.mapM_cons]
      by_cases inside : variant.1 ∈ shape
      · have granted : Granted session shape [variant] := by
          intro _
          simpa using inside
        have later : ¬ ∀ variant ∈ variants, variant.1 ∈ shape :=
          fun all => refused (List.forall_mem_cons.mpr ⟨inside, all⟩)
        obtain ⟨first, listed, outside, run⟩ :=
          ih ((Session.enclosing_hearing _ _).trans enclosing) later
        refine ⟨first, List.mem_cons_of_mem _ listed, outside, ?_⟩
        rw [(gives_keyed_variant valid granted).runIn_bind]
        exact fst_runIn_bind_of_fault run
      · refine ⟨variant, List.mem_cons_self, inside, ?_⟩
        exact fst_runIn_bind_of_fault (runIn_keyed_variant valid inside enclosing denies)

/-! ## The selected label -/

theorem eval_label (environment : Environment) (text : String) :
    (label text).eval environment = Binary.ofBytes text.toUTF8.toList := by
  have bounded := Binary.ofBytes_lt text.toUTF8.toList
  exact Shape.fit_eq_self (Shape.valid_unsigned _) (Shape.mem_unsigned_natCast.mpr bounded)

theorem accept_variantCase (valid : shape.Valid) {number : Int} (inside : number ∈ shape)
    (variant : Int × String) :
    (variantCase shape variant).1.accept (Binary.digits number shape.width) = true ↔
      variant.1 = number := by
  rw [variantCase, Keys.accept, variantKeys]
  by_cases listed : variant.1 ∈ shape
  · rw [if_pos listed, List.any_cons, List.any_nil, Bool.or_false, Binary.text,
      String.toList_ofList, Value.covers_digits_digits_iff valid listed inside]
    exact eq_comm
  · rw [if_neg listed, List.any_nil]
    exact iff_of_false Bool.false_ne_true fun same => listed (same ▸ inside)

/-- The case that a number takes is that of the first variant which it equals, and the default if
it equals none. -/
theorem find_labelCases (valid : shape.Valid) {number : Int} (inside : number ∈ shape)
    (variants : List (Int × String)) :
    ((labelCases shape variants).find? fun case =>
        case.1.accept (Binary.digits number shape.width)) =
      some (((variants.find? fun variant => variant.1 = number).map (variantCase shape)).getD
        (none, label "[unknown]")) := by
  induction variants with
  | nil => rfl
  | cons variant variants ih =>
      have accepts := accept_variantCase valid inside variant
      rw [labelCases, List.map_cons, List.cons_append, List.find?_cons, List.find?_cons]
      by_cases same : variant.1 = number
      · rw [accepts.mpr same, decide_eq_true same]
        rfl
      · rw [Bool.eq_false_iff.mpr (mt accepts.mp same), decide_eq_false same]
        exact ih

end Printer

namespace Value

theorem chosen_eq_find (environment : Environment) (bits : List Char)
    (cases : List (Keys × Value)) :
    chosen environment bits cases =
      ((cases.find? fun case => case.1.accept bits).map fun case =>
        case.2.eval environment).getD 0 := by
  induction cases with
  | nil => rfl
  | cons case cases ih =>
      rw [chosen, List.find?_cons]
      cases case.1.accept bits with
      | true => rfl
      | false => exact ih

end Value

namespace Printer

variable {session after : Session} {shape : Shape} {variants : List (Int × String)}

theorem chosen_labelCases (valid : shape.Valid) {number : Int} (inside : number ∈ shape)
    (environment : Environment) :
    Value.chosen environment (Binary.digits number shape.width) (labelCases shape variants) =
      Binary.ofBytes (labelAt variants number).toUTF8.toList := by
  rw [Value.chosen_eq_find, find_labelCases valid inside, labelAt]
  cases variants.find? fun variant => variant.1 = number with
  | none => exact eval_label environment "[unknown]"
  | some variant => exact eval_label environment variant.2

theorem exists_case_labelAt (shape : Shape) (variants : List (Int × String)) (number : Int) :
    ∃ keys, (keys, label (labelAt variants number)) ∈ labelCases shape variants := by
  rw [labelAt]
  cases found : variants.find? fun variant => variant.1 = number with
  | none => exact ⟨none, List.mem_append_right _ List.mem_cons_self⟩
  | some variant =>
      have listed := List.mem_of_find?_eq_some found
      exact ⟨_, List.mem_append_left _ (List.mem_map_of_mem listed)⟩

theorem shape_of_mem_labelCases {case : Keys × Value}
    (listed : case ∈ labelCases shape variants) :
    case.2.shape.signed = false ∧ 8 ∣ case.2.width := by
  rcases List.mem_append.mp listed with given | last
  · obtain ⟨variant, _, rfl⟩ := List.mem_map.mp given
    exact ⟨rfl, Nat.dvd_mul_left 8 _⟩
  · rw [List.mem_singleton.mp last]
    exact ⟨rfl, Nat.dvd_mul_left 8 _⟩

theorem shape_switch_labelCases (test : Value) (shape : Shape) (variants : List (Int × String)) :
    (Value.switch test (labelCases shape variants)).shape =
      Shape.unsigned (Shape.widest
        ((labelCases shape variants).map fun case => case.2.shape) false) := by
  rw [Value.shape, Value.caseShapes_eq_map]
  apply Shape.unify_of_unsigned
  intro someSigned
  obtain ⟨each, listed, signed⟩ := List.any_eq_true.mp someSigned
  obtain ⟨case, caseListed, rfl⟩ := List.mem_map.mp listed
  rw [(shape_of_mem_labelCases caseListed).1] at signed
  cases signed

theorem dvd_width_switch_labelCases (test : Value) (shape : Shape)
    (variants : List (Int × String)) :
    8 ∣ (Value.switch test (labelCases shape variants)).width := by
  rw [Value.width, shape_switch_labelCases]
  apply Shape.dvd_widest
  intro each listed
  obtain ⟨case, caseListed, rfl⟩ := List.mem_map.mp listed
  exact (shape_of_mem_labelCases caseListed).2

theorem length_labelAt_le (test : Value) (shape : Shape) (variants : List (Int × String))
    (number : Int) :
    (labelAt variants number).toUTF8.toList.length * 8 ≤
      (Value.switch test (labelCases shape variants)).width := by
  obtain ⟨keys, listed⟩ := exists_case_labelAt shape variants number
  have among : (label (labelAt variants number)).shape ∈
      (labelCases shape variants).map fun case => case.2.shape :=
    List.mem_map.mpr ⟨_, listed, rfl⟩
  rw [Value.width, shape_switch_labelCases]
  exact Shape.le_widest among

end Printer

/-! ## The printed string -/

namespace Format

theorem checkValue_string {shape : Shape} (unsigned : shape.signed = false)
    (whole : 8 ∣ shape.width) : Specifier.checkValue "s" shape = .ok () := by
  have read : Specifier.read "s" = .ok { type := some 's' } := rfl
  have limit : Specifier.characterLimit? { type := some 's' } shape = none := by
    simp [Specifier.characterLimit?, unsigned, Nat.mod_eq_zero_of_dvd whole]
  simp [Specifier.checkValue, read, limit, bind, Except.bind, pure, Except.pure,
    Specifier.valueTypes]

theorem gives_string {value : Value} (unsigned : value.shape.signed = false)
    (whole : 8 ∣ value.width) (session : Session) :
    Gives (ofValues "\x7b:s\x7d" [value]) session ⟨[.argument value "s"]⟩ session := by
  have only {other : Value} {specifier : String}
      (listed : Chunk.argument other specifier ∈ [Chunk.argument value "s"]) :
      other = value ∧ specifier = "s" := by
    simpa using listed
  have settled : Settled ⟨[.argument value "s"]⟩ := by
    refine ⟨trivial, fun other specifier listed => ?_⟩
    obtain ⟨rfl, rfl⟩ := only listed
    exact checkValue_string unsigned whole
  have plain : ∀ other specifier, .argument other specifier ∈ [Chunk.argument value "s"] →
      Braceless specifier := by
    intro other specifier listed
    obtain ⟨rfl, rfl⟩ := only listed
    exact ⟨by decide, by decide⟩
  exact settled.gives_template plain Insertion.none session

end Format

namespace Printer

variable {session after : Session} {value : Value} {variants : List (Int × String)}

/-- The format of a printer of labels: one switch, printed as a string. -/
def labelled (value : Value) (variants : List (Int × String)) : Format :=
  ⟨[.argument (.switch value (labelCases value.shape variants)) "s"]⟩

/-- A switch on a value that has the label of each of its numbers: the bytes of the label, the
first at the low end, and zeroes above them. -/
structure Labelling (value : Value) (variants : List (Int × String))
    (cases : List (Keys × Value)) : Prop where
  unsigned : (Value.switch value cases).shape.signed = false
  whole : 8 ∣ (Value.switch value cases).width
  selects : ∀ number ∈ value.shape, ∃ code extra : Nat,
    (Value.switch value cases).width =
      ((labelAt variants number).toUTF8.toList.length + extra) * 8 ∧
    code < 2 ^ (Value.switch value cases).width ∧
    Binary.bytes ((labelAt variants number).toUTF8.toList.length + extra) code =
      (labelAt variants number).toUTF8.toList ++ List.replicate extra 0 ∧
    (∀ environment,
      Value.chosen environment (Binary.digits number value.width) cases = code) ∧
    ∀ environment, value.eval environment = number →
      (Value.switch value cases).eval environment = code

theorem labelling_labelCases (valid : value.shape.Valid) (variants : List (Int × String)) :
    Labelling value variants (labelCases value.shape variants) where
  unsigned := by
    rw [shape_switch_labelCases]
    rfl
  whole := dvd_width_switch_labelCases value value.shape variants
  selects number inside := by
    have fits := length_labelAt_le value value.shape variants number
    obtain ⟨count, width⟩ := dvd_width_switch_labelCases value value.shape variants
    have chosen (environment : Environment) :=
      @chosen_labelCases _ variants valid number inside environment
    refine ⟨_, count - (labelAt variants number).toUTF8.toList.length, by omega, ?_,
      Binary.bytes_ofBytes _ _, chosen, ?_⟩
    · exact Nat.lt_of_lt_of_le (Binary.ofBytes_lt _) (Nat.pow_le_pow_right (by decide) fits)
    · intro environment same
      rw [Value.eval, same]
      exact chosen environment

theorem labelFormat_eq (value : Value) (variants : List (Int × String)) :
    labelFormat value variants = (do
      let cases ← (variants.map variantPatterns ++
        [(none, label "[unknown]")]).mapM (keyed value.shape)
      Format.ofValues "\x7b:s\x7d" [.switch value cases]) := by
  simp only [labelFormat, Value.switchOn, bind_assoc, pure_bind]
  rfl

theorem gives_labelFormat (valid : value.shape.Valid)
    (granted : Granted session value.shape variants) :
    Gives (labelFormat value variants) session (labelled value variants)
      (session.hearing (variantRemarks value.shape variants)) := by
  have labelling := labelling_labelCases valid variants
  rw [labelFormat_eq]
  exact gives_bind.mpr ⟨_, _, gives_keyed_variants valid granted,
    Format.gives_string labelling.unsigned labelling.whole _⟩

theorem runIn_labelFormat (valid : value.shape.Valid)
    (refused : ¬ Granted session value.shape variants) :
    ∃ filter, session.enclosing = some filter ∧ filter.Denies .unmatchablePattern ∧
      ∃ variant ∈ variants, variant.1 ∉ value.shape ∧
        (runIn session (labelFormat value variants)).1 =
          .error (.denied ((variantRemark value.shape variant).reported filter.level)) := by
  obtain ⟨⟨filter, enclosing, denies⟩, outside⟩ := Classical.not_imp.mp refused
  obtain ⟨variant, listed, notInside, run⟩ :=
    runIn_keyed_variants valid enclosing denies outside
  refine ⟨filter, enclosing, denies, variant, listed, notInside, ?_⟩
  rw [labelFormat_eq]
  exact fst_runIn_bind_of_fault run

theorem Granted.iff_gives (valid : value.shape.Valid) :
    (∃ format after, Gives (labelFormat value variants) session format after) ↔
      Granted session value.shape variants := by
  constructor
  · intro ⟨_, _, run⟩
    by_contra refused
    obtain ⟨_, _, _, _, _, _, failed⟩ := runIn_labelFormat valid refused
    rw [Gives] at run
    rw [run] at failed
    cases failed
  · intro granted
    exact ⟨_, _, gives_labelFormat valid granted⟩

theorem labelFormat_eq_labelled (valid : value.shape.Valid) {format : Format}
    (run : Gives (labelFormat value variants) session format after) :
    format = labelled value variants ∧
      after = session.hearing (variantRemarks value.shape variants) := by
  have granted := (Granted.iff_gives valid).mp ⟨format, after, run⟩
  have same := run.symm.trans (gives_labelFormat valid granted)
  cases same
  exact ⟨rfl, rfl⟩

/-- A printer of labels fails only by a denied remark on a variant that the value never equals,
and succeeds otherwise.  Its format is one switch, printed as a string: an unsigned number of
whole bytes which, where the printed value is a number of its shape, are those of the label of
the first variant that equals the number, or of the text for an unknown one, and zeroes above. -/
theorem compile_labels (valid : value.shape.Valid) (variants : List (Int × String))
    (name : Option String) (session : Session) :
    ((∃ format after, Gives (Printer.labels value variants name).compile session format after) ↔
      (session.Denies .unmatchablePattern → ∀ variant ∈ variants, variant.1 ∈ value.shape)) ∧
    (∀ fault after,
      runIn session (Printer.labels value variants name).compile = (.error fault, after) →
        ∃ filter, session.enclosing = some filter ∧ filter.Denies .unmatchablePattern ∧
          ∃ variant ∈ variants, variant.1 ∉ value.shape ∧
            fault = .denied ((variantRemark value.shape variant).reported filter.level)) ∧
    ∀ format after, Gives (Printer.labels value variants name).compile session format after →
      ∃ cases, format.chunks = [.argument (.switch value cases) "s"] ∧
        Labelling value variants cases := by
  have compiled : (Printer.labels value variants name).compile = labelFormat value variants := rfl
  rw [compiled]
  refine ⟨Granted.iff_gives valid, ?_, ?_⟩
  · intro fault after run
    have refused : ¬ Granted session value.shape variants := by
      intro granted
      cases run.symm.trans (gives_labelFormat valid granted)
    obtain ⟨filter, enclosing, denies, variant, listed, outside, failed⟩ :=
      runIn_labelFormat valid refused
    rw [run] at failed
    cases failed
    exact ⟨filter, enclosing, denies, variant, listed, outside, rfl⟩
  · intro format after run
    obtain ⟨rfl, _⟩ := labelFormat_eq_labelled valid run
    exact ⟨labelCases value.shape variants, rfl, labelling_labelCases valid variants⟩

/-- Three bits printed by labels, one of them out of reach and two of the same number. -/
theorem compile_labels_three :
    (Value.signal ⟨0, "s", Shape.unsigned 3⟩).shape.Valid ∧
      ∃ format after cases, Gives (Printer.labels (.signal ⟨0, "s", Shape.unsigned 3⟩)
          [(1, "one"), (9, "nine"), (1, "other"), (2, "")] none).compile Pattern.listening
          format after ∧
        format.chunks = [.argument (.switch (.signal ⟨0, "s", Shape.unsigned 3⟩) cases) "s"] ∧
        ∃ code extra : Nat,
          Binary.bytes (3 + extra) code = [111, 110, 101] ++ List.replicate extra 0 ∧
          ∀ environment, Value.chosen environment ['0', '0', '1'] cases = code := by
  have valid : (Value.signal ⟨0, "s", Shape.unsigned 3⟩).shape.Valid := by decide
  have granted : ¬ Pattern.listening.Denies .unmatchablePattern := by
    intro ⟨filter, enclosing, denies⟩
    cases enclosing
    exact Diagnostic.Filter.not_denies_empty _ denies
  obtain ⟨succeeds, _, spec⟩ := compile_labels valid
    [(1, "one"), (9, "nine"), (1, "other"), (2, "")] none Pattern.listening
  obtain ⟨made, after, run⟩ := succeeds.mpr fun denies => absurd denies granted
  obtain ⟨cases, chunks, labelling⟩ := spec made after run
  obtain ⟨code, extra, _, _, bytes, chosen, _⟩ := labelling.selects 1 (by decide)
  have encoded : (labelAt [(1, "one"), (9, "nine"), (1, "other"), (2, "")] 1).toUTF8.toList =
      [111, 110, 101] := by
    decide +kernel
  rw [encoded] at bytes
  exact ⟨valid, made, after, cases, run, chunks, code, extra, bytes, chosen⟩

end Printer

end Gateware
