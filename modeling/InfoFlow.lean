import InfoFlow.Belief.Analysis
import InfoFlow.Belief.Coverage
import InfoFlow.Belief.Dataset
import InfoFlow.Belief.Draw
import InfoFlow.Belief.Generator
import InfoFlow.Belief.Range
import InfoFlow.Belief.Search
import InfoFlow.CommandLine.Estimate
import InfoFlow.CommandLine.Options
import InfoFlow.Csv.Field
import InfoFlow.Csv.Record
import InfoFlow.Decimal.Reader
import InfoFlow.Decimal.Rounding
import InfoFlow.Decimal.Shortest
import InfoFlow.Distribution.Basic
import InfoFlow.Distribution.Checked
import InfoFlow.Distribution.ClosedForm
import InfoFlow.Distribution.Density
import InfoFlow.Distribution.Family
import InfoFlow.Distribution.Sampler
import InfoFlow.Document.Basic
import InfoFlow.Document.Decoder
import InfoFlow.Document.Reader
import InfoFlow.Document.Writer
import InfoFlow.Inference.Chain
import InfoFlow.Inference.Config
import InfoFlow.Inference.Diagnostics
import InfoFlow.Inference.Run
import InfoFlow.Inference.Stored
import InfoFlow.Inference.Trace
import InfoFlow.Information.Entropy
import InfoFlow.Information.Estimator
import InfoFlow.Information.NearestNeighbor
import InfoFlow.Information.Neighbors
import InfoFlow.Information.RowIds
import InfoFlow.Information.Samples
import InfoFlow.Leakage.Convergence
import InfoFlow.Leakage.Report
import InfoFlow.Leakage.Vulnerability
import InfoFlow.Main
import InfoFlow.Matrix
import InfoFlow.Model.Basic
import InfoFlow.Model.Compile
import InfoFlow.Model.Likelihood
import InfoFlow.Model.Order
import InfoFlow.Model.Prior
import InfoFlow.Program.Basic
import InfoFlow.Program.Expression
import InfoFlow.Program.Observation
import InfoFlow.Program.Selector
import InfoFlow.Program.Stored
import InfoFlow.Program.Value
import InfoFlow.Proofs.Belief.Candidates
import InfoFlow.Proofs.Belief.Coverage
import InfoFlow.Proofs.Belief.Datasets
import InfoFlow.Proofs.Belief.Draws
import InfoFlow.Proofs.Belief.Explored
import InfoFlow.Proofs.Belief.Moves
import InfoFlow.Proofs.Belief.Partitions
import InfoFlow.Proofs.Belief.Refusals
import InfoFlow.Proofs.Belief.Search
import InfoFlow.Proofs.Belief.Suited
import InfoFlow.Proofs.Belief.Termination
import InfoFlow.Proofs.Belief.Window
import InfoFlow.Proofs.Distribution.Bisection
import InfoFlow.Proofs.Distribution.PointMass
import InfoFlow.Proofs.Distribution.Quantile
import InfoFlow.Proofs.Distribution.Rebuilt
import InfoFlow.Proofs.Distribution.Samplers
import InfoFlow.Proofs.Distribution.Shares
import InfoFlow.Proofs.Distribution.WordArithmetic
import InfoFlow.Proofs.Inference.Accounts
import InfoFlow.Proofs.Inference.Attempts
import InfoFlow.Proofs.Inference.Bounds
import InfoFlow.Proofs.Inference.Categories
import InfoFlow.Proofs.Inference.Coherence
import InfoFlow.Proofs.Inference.Deviations
import InfoFlow.Proofs.Inference.EffectiveSize
import InfoFlow.Proofs.Inference.Frame
import InfoFlow.Proofs.Inference.Histories
import InfoFlow.Proofs.Inference.Incomplete
import InfoFlow.Proofs.Inference.Iterations
import InfoFlow.Proofs.Inference.JointDensity
import InfoFlow.Proofs.Inference.Lookups
import InfoFlow.Proofs.Inference.Moves
import InfoFlow.Proofs.Inference.Names
import InfoFlow.Proofs.Inference.Recorded
import InfoFlow.Proofs.Inference.Referenced
import InfoFlow.Proofs.Inference.Rows
import InfoFlow.Proofs.Inference.Runs
import InfoFlow.Proofs.Inference.ScaleReduction
import InfoFlow.Proofs.Inference.Starts
import InfoFlow.Proofs.Inference.Traces
import InfoFlow.Proofs.Information.ConstantColumns
import InfoFlow.Proofs.Information.Distances
import InfoFlow.Proofs.Information.Entropy
import InfoFlow.Proofs.Information.Estimates
import InfoFlow.Proofs.Information.Finite
import InfoFlow.Proofs.Information.GroupTables
import InfoFlow.Proofs.Information.Groups
import InfoFlow.Proofs.Information.Guarded
import InfoFlow.Proofs.Information.Independence
import InfoFlow.Proofs.Information.Kraskov
import InfoFlow.Proofs.Information.Nearest
import InfoFlow.Proofs.Information.Neighbors
import InfoFlow.Proofs.Information.Preparation
import InfoFlow.Proofs.Information.Processing
import InfoFlow.Proofs.Information.Rescaling
import InfoFlow.Proofs.Information.Ross
import InfoFlow.Proofs.Information.RowIdBatches
import InfoFlow.Proofs.Information.RowIds
import InfoFlow.Proofs.Information.Symmetry
import InfoFlow.Proofs.Information.Visits
import InfoFlow.Proofs.Information.Walks
import InfoFlow.Proofs.Leakage.Answers
import InfoFlow.Proofs.Leakage.Convergence
import InfoFlow.Proofs.Leakage.Curve
import InfoFlow.Proofs.Leakage.DataProcessing
import InfoFlow.Proofs.Leakage.EvenSizes
import InfoFlow.Proofs.Leakage.Floors
import InfoFlow.Proofs.Leakage.Guessing
import InfoFlow.Proofs.Leakage.Highest
import InfoFlow.Proofs.Leakage.Incomplete
import InfoFlow.Proofs.Leakage.Queries
import InfoFlow.Proofs.Leakage.Refusals
import InfoFlow.Proofs.Leakage.Scores
import InfoFlow.Proofs.Leakage.Vulnerability
import InfoFlow.Proofs.Matrix
import InfoFlow.Proofs.Model.Access
import InfoFlow.Proofs.Model.Ancestral
import InfoFlow.Proofs.Model.Checks
import InfoFlow.Proofs.Model.Compile
import InfoFlow.Proofs.Model.Constants
import InfoFlow.Proofs.Model.Cycles
import InfoFlow.Proofs.Model.Dependence
import InfoFlow.Proofs.Model.Draws
import InfoFlow.Proofs.Model.Least
import InfoFlow.Proofs.Model.Observed
import InfoFlow.Proofs.Model.Order
import InfoFlow.Proofs.Model.Probe
import InfoFlow.Proofs.Model.Reachable
import InfoFlow.Proofs.Model.References
import InfoFlow.Proofs.Model.State
import InfoFlow.Proofs.Model.Tables
import InfoFlow.Proofs.Model.Targets
import InfoFlow.Proofs.Model.Unreachable
import InfoFlow.Proofs.Program.Comparison
import InfoFlow.Proofs.Program.Declared
import InfoFlow.Proofs.Program.Except
import InfoFlow.Proofs.Program.Faults
import InfoFlow.Proofs.Program.Readings
import InfoFlow.Proofs.Program.Selector
import InfoFlow.Proofs.Random.Always
import InfoFlow.Proofs.Random.Closed
import InfoFlow.Proofs.Random.Preparation
import InfoFlow.Proofs.Random.Uniform
import InfoFlow.Proofs.SampleTable
import InfoFlow.Proofs.Scalar.Bounds
import InfoFlow.Proofs.Scalar.Double
import InfoFlow.Proofs.Scalar.DoubleFloor
import InfoFlow.Proofs.Scalar.DoubleRounding
import InfoFlow.Proofs.Scalar.DoubleSteps
import InfoFlow.Proofs.Scalar.DoubleValue
import InfoFlow.Proofs.Scalar.DoubleWords
import InfoFlow.Proofs.Scalar.Exact
import InfoFlow.Proofs.Scalar.Floor
import InfoFlow.Proofs.Scalar.Gaps
import InfoFlow.Proofs.Scalar.Halving
import InfoFlow.Proofs.Scalar.Indices
import InfoFlow.Proofs.Scalar.Integers
import InfoFlow.Proofs.Scalar.Laws
import InfoFlow.Proofs.Scalar.Magnitudes
import InfoFlow.Proofs.Scalar.Order
import InfoFlow.Proofs.Scalar.Quotients
import InfoFlow.Proofs.Scalar.Sizes
import InfoFlow.Proofs.Scalar.Sums
import InfoFlow.Proofs.Scalar.Values
import InfoFlow.Proofs.Scalar.Words
import InfoFlow.Proofs.Special.Gamma
import InfoFlow.Proofs.Updates
import InfoFlow.Random.Counts
import InfoFlow.Random.Gamma
import InfoFlow.Random.Normal
import InfoFlow.Random.Tables
import InfoFlow.Random.Uniform
import InfoFlow.Random.Words
import InfoFlow.SampleTable
import InfoFlow.Scalar.Basic
import InfoFlow.Scalar.Double
import InfoFlow.Settings
import InfoFlow.Special.Beta
import InfoFlow.Special.ErrorFunction
import InfoFlow.Special.Gamma
import InfoFlow.Special.Pieces
import InfoFlow.Text.Case
import InfoFlow.Text.Properties
import InfoFlow.Variable
