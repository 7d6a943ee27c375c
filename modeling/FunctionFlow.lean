import FunctionFlow.Main
import FunctionFlow.Proofs.Analysis.Depth
import FunctionFlow.Proofs.Analysis.Exports
import FunctionFlow.Proofs.Analysis.Flattening
import FunctionFlow.Proofs.Analysis.LocalNames
import FunctionFlow.Proofs.Analysis.Parameters
import FunctionFlow.Proofs.Analysis.Privacy
import FunctionFlow.Proofs.Analysis.Restart
import FunctionFlow.Proofs.Analysis.UniqueWrites
import FunctionFlow.Proofs.CallGraph.Export
import FunctionFlow.Proofs.CallGraph.FileOrder
import FunctionFlow.Proofs.CallGraph.Monotone
import FunctionFlow.Proofs.Flow.Construction
import FunctionFlow.Proofs.Lowering.Coverage
import FunctionFlow.Proofs.Project.Collect
import FunctionFlow.Proofs.Tree.Script
import FunctionFlow.Text.Utf8
