import PageWalk.Files.Tree
import PageWalk.Main
import PageWalk.Proofs.Error
import PageWalk.Proofs.Costs
import PageWalk.Proofs.SortedMap
import PageWalk.Proofs.Text.Utf8
import PageWalk.Proofs.Text.Numeral
import PageWalk.Proofs.Separated
import PageWalk.Proofs.Record.Grammar
import PageWalk.Proofs.Decimal.Double
import PageWalk.Proofs.Decimal.Rounding
import PageWalk.Proofs.Decimal.Nearest
import PageWalk.Proofs.Decimal.Shortest
import PageWalk.Proofs.Decimal.Style
import PageWalk.Proofs.Csv.Format
import PageWalk.Proofs.Csv.Columns
import PageWalk.Proofs.Csv.Rows
import PageWalk.Proofs.Log.Lines
import PageWalk.Proofs.Log.Section
import PageWalk.Proofs.Log.Size
import PageWalk.Proofs.Statistics.Latency
import PageWalk.Proofs.Statistics.Breakdown
import PageWalk.Proofs.Reduction.Run
import PageWalk.Proofs.Reduction.Ecpt
import PageWalk.Proofs.Reduction.Radix
import PageWalk.Proofs.LatencyTable.Sound
import PageWalk.Proofs.LatencyTable.RoundTrip
import PageWalk.Proofs.Aggregation.Table
import PageWalk.Proofs.Statistics.Bounds
import PageWalk.Proofs.Reduction.Reached
import PageWalk.Proofs.Reduction.Handling
import PageWalk.Proofs.Reduction.Overflow
import PageWalk.Proofs.Reduction.Refusal
import PageWalk.Proofs.Reduction.Models
import PageWalk.Proofs.Files.Tree
import PageWalk.Proofs.LogFile
import PageWalk.Proofs.Aggregation.Outcome
import PageWalk.Proofs.Aggregation.Isolation
import PageWalk.Proofs.Reduction.Accounting
import PageWalk.Proofs.Log.Order
import PageWalk.Proofs.Reduction.Success
import PageWalk.Proofs.Reduction.Order
import PageWalk.Proofs.Files.Contents
import PageWalk.Proofs.Discovery
import PageWalk.Proofs.Discovery.Listing
import PageWalk.Proofs.Aggregation.Targets
import PageWalk.Proofs.Aggregation.Results
import PageWalk.Proofs.Comparison.Join
import PageWalk.Proofs.Comparison.Tables
import PageWalk.Proofs.Comparison.RoundTrip
import PageWalk.Proofs.Preset
import PageWalk.Proofs.Config.Period
import PageWalk.Proofs.Config.Resolution
import PageWalk.Proofs.Reduction.Lines
import PageWalk.Proofs.Reduction.Strictness
import PageWalk.Proofs.Record.Told
import PageWalk.Proofs.Reduction.Tally
import PageWalk.Proofs.Reduction.Failure
import PageWalk.Proofs.Log.Layout
import PageWalk.Proofs.Reduction.Layout
import PageWalk.Proofs.Json.Numbers
import PageWalk.Proofs.Json.Strings
import PageWalk.Proofs.Json.Text
import PageWalk.Proofs.Json.Fields
import PageWalk.Proofs.Statistics.Json
import PageWalk.Proofs.Aggregation.Reports
import PageWalk.Proofs.Aggregation.Latencies
import PageWalk.Proofs.Reduction.Monotone
import PageWalk.Proofs.Log.Input
import PageWalk.Proofs.Log.Progress
import PageWalk.Proofs.LatencyTable.Alignment
