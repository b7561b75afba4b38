import RegressionGate.Benchmark
import RegressionGate.Binary64.Arithmetic
import RegressionGate.Binary64.Basic
import RegressionGate.CommandLine.Help
import RegressionGate.CommandLine.Option
import RegressionGate.CommandLine.Parse
import RegressionGate.Comparison
import RegressionGate.Decimal.Layout
import RegressionGate.Decimal.Literal
import RegressionGate.Decimal.Power
import RegressionGate.Decimal.Shortest
import RegressionGate.Estimate.Load
import RegressionGate.Estimate.Measure
import RegressionGate.Estimate.Set
import RegressionGate.Gate
import RegressionGate.Json.Amount
import RegressionGate.Json.Fault
import RegressionGate.Json.Number
import RegressionGate.Json.Record
import RegressionGate.Json.Skip
import RegressionGate.Json.Text
import RegressionGate.Json.Writer
import RegressionGate.Main
import RegressionGate.Program
import RegressionGate.Proofs.Binary64.Arithmetic
import RegressionGate.Proofs.Binary64.Closest
import RegressionGate.Proofs.Binary64.Nearest
import RegressionGate.Proofs.Binary64.Rational
import RegressionGate.Proofs.Binary64.Within
import RegressionGate.Proofs.Change
import RegressionGate.Proofs.Comparison
import RegressionGate.Proofs.Decimal.Digits
import RegressionGate.Proofs.Decimal.Shortest
import RegressionGate.Proofs.Estimate.Case
import RegressionGate.Proofs.Estimate.Contents
import RegressionGate.Proofs.Estimate.Literal
import RegressionGate.Proofs.Estimate.Load
import RegressionGate.Proofs.Estimate.Locality
import RegressionGate.Proofs.Estimate.Measure
import RegressionGate.Proofs.Estimate.Place
import RegressionGate.Proofs.Estimate.Set
import RegressionGate.Proofs.Gate.Pairing
import RegressionGate.Proofs.Gate.Report
import RegressionGate.Proofs.Gate.Threshold
import RegressionGate.Proofs.Gate.Verdict
import RegressionGate.Proofs.Json.Amount
import RegressionGate.Proofs.Json.Conversion
import RegressionGate.Proofs.Json.Grammar
import RegressionGate.Proofs.Json.Literal
import RegressionGate.Proofs.Json.Number
import RegressionGate.Proofs.Json.Record
import RegressionGate.Proofs.Json.Scale
import RegressionGate.Proofs.Json.Significand
import RegressionGate.Proofs.Json.Skip
import RegressionGate.Proofs.Json.Text
import RegressionGate.Proofs.Json.Unambiguous
import RegressionGate.Proofs.Json.Writer
import RegressionGate.Proofs.Program
import RegressionGate.Proofs.Report.Json
import RegressionGate.Proofs.Report.Text
import RegressionGate.Proofs.Rounding
import RegressionGate.Proofs.Text.Utf8
import RegressionGate.Proofs.Tree.Directory
import RegressionGate.Proofs.Tree.Edit
import RegressionGate.Proofs.Tree.Path
import RegressionGate.Proofs.Tree.Walk
import RegressionGate.Report.Amount
import RegressionGate.Report.Json
import RegressionGate.Report.Text
import RegressionGate.Rounding
import RegressionGate.Settings.Basic
import RegressionGate.Settings.File
import RegressionGate.Text.Blank
import RegressionGate.Text.Combining
import RegressionGate.Text.Hexadecimal
import RegressionGate.Text.Printable
import RegressionGate.Text.Quoted
import RegressionGate.Text.Terminal
import RegressionGate.Text.Utf8
import RegressionGate.Toml.Basic
import RegressionGate.Toml.Document
import RegressionGate.Toml.Excerpt
import RegressionGate.Toml.Grammar
import RegressionGate.Toml.Number
import RegressionGate.Toml.Table
import RegressionGate.Toml.Text
import RegressionGate.Tree.Basic
import RegressionGate.Tree.Change
import RegressionGate.Tree.Listing
import RegressionGate.Tree.Path
import RegressionGate.Verdict
import RegressionGate.Proofs.Estimate.Confinement
import RegressionGate.Proofs.Binary64.Order
import RegressionGate.Proofs.Comparison.Partition
import RegressionGate.Proofs.Binary64.TotalOrder
import RegressionGate.Proofs.Comparison.Presentation
import RegressionGate.Proofs.Change.Monotone
import RegressionGate.Proofs.Change.Sign
import RegressionGate.Proofs.Gate.Sign
import RegressionGate.Proofs.Report.Sections
import RegressionGate.Proofs.Settings.Layers
import RegressionGate.Proofs.CommandLine.Step
import RegressionGate.Proofs.CommandLine.Given
import RegressionGate.Proofs.CommandLine.Written
import RegressionGate.Proofs.Toml.Content
import RegressionGate.Proofs.Settings.Schema
import RegressionGate.Proofs.Decimal.Fixed
import RegressionGate.Proofs.Report.Duration
import RegressionGate.Proofs.Gate.Naming
