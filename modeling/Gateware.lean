import Gateware.Bank.Lookup
import Gateware.Diagnostic.Sink
import Gateware.Document.Outline
import Gateware.Proofs.Alike
import Gateware.Proofs.Bank.Circles
import Gateware.Proofs.Bank.Permanence
import Gateware.Proofs.Bank.Positions
import Gateware.Proofs.Bank.Refused
import Gateware.Proofs.Design.LookupShape
import Gateware.Proofs.Design.Resolution
import Gateware.Proofs.Document.Stored
import Gateware.Proofs.Format.Braces
import Gateware.Proofs.Format.Integers
import Gateware.Proofs.Format.Members
import Gateware.Proofs.Format.Normal
import Gateware.Proofs.Format.Oversized
import Gateware.Proofs.Format.Printing
import Gateware.Proofs.Keys
import Gateware.Proofs.Ranges
import Gateware.Proofs.Shape.Narrowest
import Gateware.Proofs.Shape.Unify
import Gateware.Proofs.Shape.Words
import Gateware.Proofs.Signal.Copies
import Gateware.Proofs.Signal.Custom
import Gateware.Proofs.Signal.Ranges
import Gateware.Proofs.Text.Quoted
import Gateware.Proofs.Value.Canonical
import Gateware.Proofs.Value.Folding
import Gateware.Proofs.Value.Multiplexer
import Gateware.Proofs.Value.Offsets
import Gateware.Proofs.Value.Reassembly
import Gateware.Proofs.Value.Rotations
import Gateware.Proofs.Value.Shifts
import Gateware.Proofs.Value.Soundness
