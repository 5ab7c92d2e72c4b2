import MachineTyping.Session
import MachineTyping.Proofs.Type.Order
import MachineTyping.Proofs.Scope.Reachable
import MachineTyping.Proofs.Tree.Lawful
import MachineTyping.Proofs.Tree.Acceptance
import MachineTyping.Proofs.Tree.Elaboration
import MachineTyping.Proofs.Tree.Soundness
import MachineTyping.Proofs.Alias.Canonical
import MachineTyping.Proofs.Alias.Rule
import MachineTyping.Proofs.Alias.Transparency
import MachineTyping.Proofs.Ownership.Swap
import MachineTyping.Proofs.Target.Expression
import MachineTyping.Proofs.Mention.Agreement
import MachineTyping.Proofs.Mention.Extension
import MachineTyping.Proofs.Ownership.Handover
import MachineTyping.Proofs.Part.Layer
import MachineTyping.Proofs.Part.Reach
import MachineTyping.Proofs.Failure.Origin
import MachineTyping.Proofs.Resolution.Offence
import MachineTyping.Proofs.Failure.First
import MachineTyping.Proofs.Part.Interchange
import MachineTyping.Proofs.Choice.Mark
import MachineTyping.Proofs.Scope.Entry
import MachineTyping.Proofs.Scope.History
import MachineTyping.Proofs.Failure.Justified
import MachineTyping.Proofs.Field.Tree
import MachineTyping.Proofs.Session.Recheck
import MachineTyping.Proofs.Session.Batch
import MachineTyping.Proofs.Scope.Invariant
import MachineTyping.Proofs.Json.Reader
import MachineTyping.Proofs.Json.Decoding
import MachineTyping.Proofs.Source.Line
import MachineTyping.Proofs.Diagnostic.Rendering
import MachineTyping.Proofs.Type.Congruence
import MachineTyping.Proofs.Type.Spelling
import MachineTyping.Proofs.Ownership.Argument
import MachineTyping.Proofs.Scope.Declaration
import MachineTyping.Proofs.Session.Block
import MachineTyping.Proofs.Payload.Spread
import MachineTyping.Proofs.Conversion.Law
import MachineTyping.Proofs.Argument.Wanted
import MachineTyping.Proofs.Argument.Subsumption
import MachineTyping.Proofs.Argument.Report
import MachineTyping.Proofs.Conversion.Advice
import MachineTyping.Proofs.Alias.Advice
import MachineTyping.Proofs.Diagnostic.Label
import MachineTyping.Proofs.Numeral.Digit
import MachineTyping.Proofs.Numeral.Literal
import MachineTyping.Proofs.Numeral.Rounding
import MachineTyping.Proofs.Numeral.Nearest
import MachineTyping.Proofs.Tuple.Access
import MachineTyping.Proofs.Source.Byte
import MachineTyping.Proofs.Source.Range
