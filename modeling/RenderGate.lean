import RenderGate.Config.Document
import RenderGate.Engine
import RenderGate.Json.Reader
import RenderGate.Json.Writer
import RenderGate.Language
import RenderGate.Lowering.Module
import RenderGate.Wire.Report
import RenderGate.Wire.Tree
import RenderGate.Proofs.Comparison.Range
import RenderGate.Proofs.Comparison.Record
import RenderGate.Proofs.Comparison.Renaming
import RenderGate.Proofs.Comparison.Threshold
import RenderGate.Proofs.Grammar.Contexts
import RenderGate.Proofs.Grammar.Depth
import RenderGate.Proofs.Lowering.Slots
import RenderGate.Proofs.Similarity.Metric
import RenderGate.Proofs.Wire.Report
import RenderGate.Proofs.Concrete.FirstFault
import RenderGate.Proofs.Comparison.Improvement
import RenderGate.Proofs.Similarity.Breakdown
import RenderGate.Proofs.Lowering.Interpolation
import RenderGate.Proofs.Lowering.BooleanChain
import RenderGate.Proofs.Lowering.Comprehension
import RenderGate.Proofs.Lowering.Conditional
import RenderGate.Proofs.Comparison.Sameness
