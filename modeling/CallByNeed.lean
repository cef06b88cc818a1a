import CallByNeed.Main
import CallByNeed.Session
import CallByNeed.Proofs.Cues
import CallByNeed.Proofs.Reading.Expr
import CallByNeed.Proofs.Arena
import CallByNeed.Proofs.OneLine
import CallByNeed.Proofs.RoundTrip
import CallByNeed.Proofs.Indentation
import CallByNeed.Proofs.InStep
import CallByNeed.Proofs.Lockstep
import CallByNeed.Proofs.OperatorSequence
import CallByNeed.Proofs.Grammar
import CallByNeed.Proofs.ByName.Agreement
import CallByNeed.Proofs.Interpretation.Cleanup
import CallByNeed.Proofs.Interpretation.DepthLimit
import CallByNeed.Proofs.Congruence.Programs
import CallByNeed.Proofs.Interpretation.Sharing
import CallByNeed.Proofs.Interpretation.Termination
import CallByNeed.Proofs.Building.Appending
import CallByNeed.Proofs.Places
import CallByNeed.Proofs.Layout.Pieces
import CallByNeed.Proofs.Layout.OffSide
import CallByNeed.Proofs.Layout.Balance
import CallByNeed.Proofs.Lexemes
import CallByNeed.Proofs.Completion
import CallByNeed.Proofs.Totality.Fuel
import CallByNeed.Proofs.Totality.Buffer
import CallByNeed.Proofs.Totality.Parsing
import CallByNeed.Proofs.Relocation.Machines
import CallByNeed.Proofs.Relocation.Evaluation
import CallByNeed.Proofs.Relocation.Independence
import CallByNeed.Proofs.Numbered.References
import CallByNeed.Proofs.Scoping.Forms
import CallByNeed.Proofs.Scoping.Renaming
import CallByNeed.Proofs.Shift.RelativeColumns
import CallByNeed.Proofs.Powers
import CallByNeed.Proofs.Matching
import CallByNeed.Proofs.Spans
import CallByNeed.Proofs.Printing.Repeated
import CallByNeed.Proofs.Printing.Limits
import CallByNeed.Proofs.Printing.Faithful
import CallByNeed.Proofs.Trees.Equality
import CallByNeed.Proofs.Environments
import CallByNeed.Proofs.Layout.Columns
import CallByNeed.Proofs.Reports
