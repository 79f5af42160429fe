import IrGraph.Main
import IrGraph.Graph.Attach
import IrGraph.Graph.Fold
import IrGraph.Graph.Literal
import IrGraph.Graph.Numbering
import IrGraph.Print.Text
import IrGraph.Target.Size
import IrGraph.Proofs.Fold.Settled
import IrGraph.Proofs.Fold.Wide
import IrGraph.Proofs.Numbering.Operand
import IrGraph.Proofs.Print.Children
import IrGraph.Proofs.Print.Count
import IrGraph.Proofs.Slot.Cells
import IrGraph.Proofs.Slot.Rewrite
import IrGraph.Proofs.Target.RoundTrip
import IrGraph.Proofs.Target.Settings
import IrGraph.Proofs.Types.Steady
import IrGraph.Proofs.Types.Unambiguous
import IrGraph.Proofs.Link.Undo
import IrGraph.Proofs.Target.Lossless
import IrGraph.Proofs.Types.Expression
import IrGraph.Proofs.Print.Entries
import IrGraph.Proofs.Print.DefinitionLines
