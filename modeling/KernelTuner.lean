import KernelTuner.Backend.FaultInjection
import KernelTuner.Backend.Platform
import KernelTuner.Expression.Builder
import KernelTuner.Registry
import KernelTuner.Proofs.Expression.Unfolding
import KernelTuner.Proofs.Fingerprint.Stream
import KernelTuner.Proofs.Expression.PrefixNotation
import KernelTuner.Proofs.Expression.Balance
import KernelTuner.Proofs.Fingerprint.Numbering
import KernelTuner.Proofs.Fingerprint.Spelling
import KernelTuner.Proofs.Fingerprint.Structure
import KernelTuner.Proofs.Outcome
import KernelTuner.Proofs.Variant.Correspondence
import KernelTuner.Proofs.Variant.ElementWise
import KernelTuner.Proofs.Action
import KernelTuner.Proofs.Model.History
import KernelTuner.Proofs.Model.Stock
import KernelTuner.Proofs.Model.Transparency
import KernelTuner.Proofs.Backend.Platform
import KernelTuner.Proofs.Kernel.Braces
import KernelTuner.Proofs.Model.Execution
import KernelTuner.Proofs.Model.Selecting
import KernelTuner.Proofs.Model.Signatures
import KernelTuner.Proofs.Model.Tuning
import KernelTuner.Proofs.Variant.Inside
import KernelTuner.Proofs.Json.Unambiguous
import KernelTuner.Proofs.Description.Leaves
import KernelTuner.Proofs.Model.Store
import KernelTuner.Proofs.Description.Import
import KernelTuner.Proofs.Description.Refusals
import KernelTuner.Proofs.Registry.Build
import KernelTuner.Proofs.Registry.Lookups
import KernelTuner.Proofs.Program.Requests
import KernelTuner.Proofs.Model.Builds
import KernelTuner.Proofs.Model.Traces
import KernelTuner.Proofs.Model.Asking
import KernelTuner.Proofs.Model.Reuse
import KernelTuner.Proofs.Expression.Drafts
import KernelTuner.Proofs.Model.Confinement
import KernelTuner.Proofs.Fingerprint.Unique
import KernelTuner.Proofs.Backend.CompilerHistory
import KernelTuner.Proofs.Backend.Submissions
import KernelTuner.Proofs.Program.Slots
import KernelTuner.Proofs.Program.Lifetimes
import KernelTuner.Proofs.Model.Records
import KernelTuner.Proofs.Model.Provenance
import KernelTuner.Proofs.Model.Attribution
import KernelTuner.Proofs.Backend.Disturbance
import KernelTuner.Proofs.Model.Stopping
import KernelTuner.Proofs.Program.Answers
import KernelTuner.Proofs.Model.Verdict
import KernelTuner.Proofs.Model.Resuming
import KernelTuner.Proofs.Model.Failing
import KernelTuner.Proofs.Model.Shapes
import KernelTuner.Proofs.Variant.Grammar
import KernelTuner.Proofs.Variant.EntryNames
import KernelTuner.Proofs.Variant.Limits
import KernelTuner.Proofs.Predictor.Evaluation
import KernelTuner.Proofs.Description.Acceptance
import KernelTuner.Proofs.Variant.Streams
import KernelTuner.Proofs.Variant.Resolution
import KernelTuner.Proofs.Kernel.Meaning
import KernelTuner.Proofs.Expression.Evaluation
import KernelTuner.Proofs.Variant.StoreMeaning
import KernelTuner.Proofs.Variant.Fusion
import KernelTuner.Proofs.Variant.ProductSteps
import KernelTuner.Proofs.Variant.ProductOutput
import KernelTuner.Proofs.Variant.ProductCover
import KernelTuner.Proofs.Kernel.Group
import KernelTuner.Proofs.Variant.Staging
import KernelTuner.Proofs.Expression.Walking
import KernelTuner.Proofs.Variant.Guards
import KernelTuner.Proofs.Variant.InnerProductRuns
import KernelTuner.Proofs.Variant.MatrixVectorRuns
import KernelTuner.Proofs.Accounting
import KernelTuner.Proofs.Program.FirstBuilds
import KernelTuner.Proofs.Variant.LocalFolds
