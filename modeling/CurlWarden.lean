import CurlWarden.Child.Run
import CurlWarden.Child.Script
import CurlWarden.Clock
import CurlWarden.Command.Fence
import CurlWarden.Command.Word
import CurlWarden.Diagnostics.Metadata
import CurlWarden.Diagnostics.Pattern
import CurlWarden.Diagnostics.RuleSet
import CurlWarden.Fault
import CurlWarden.Flag
import CurlWarden.Json.Printer
import CurlWarden.Json.Reader
import CurlWarden.Json.Value
import CurlWarden.Limits
import CurlWarden.Literal
import CurlWarden.Log
import CurlWarden.Main
import CurlWarden.Number.Binary64
import CurlWarden.Number.Shortest
import CurlWarden.Policy.Address
import CurlWarden.Policy.Arguments
import CurlWarden.Policy.Check
import CurlWarden.Policy.Violation
import CurlWarden.Probe
import CurlWarden.Report
import CurlWarden.Session.Basic
import CurlWarden.Session.Gate
import CurlWarden.Settings.Load
import CurlWarden.Settings.Path
import CurlWarden.Settings.Scalar
import CurlWarden.Terminal.Host
import CurlWarden.Terminal.Order
import CurlWarden.Terminal.Run
import CurlWarden.Text.Blank
import CurlWarden.Text.Digit
import CurlWarden.Text.Printable
import CurlWarden.Text.Quoted
import CurlWarden.Text.Search
import CurlWarden.Text.Utf8
import CurlWarden.Tool.Basic
import CurlWarden.Tool.Registry
import CurlWarden.Tool.Request
import CurlWarden.Url.Ipv6
import CurlWarden.Url.Parts
import CurlWarden.Proofs.Command.Quoting
import CurlWarden.Proofs.Command.Splitting
import CurlWarden.Proofs.Policy.Check
import CurlWarden.Proofs.Probe.Safety
import CurlWarden.Proofs.Json.Quoted
import CurlWarden.Proofs.Json.Series
import CurlWarden.Proofs.Json.Grammar
import CurlWarden.Proofs.Diagnostics.Faults
import CurlWarden.Proofs.Probe.Escape
import CurlWarden.Proofs.Policy.Literal
import CurlWarden.Proofs.Child.Ending
import CurlWarden.Proofs.Child.Watch
import CurlWarden.Proofs.Child.Timeline
import CurlWarden.Proofs.Child.Bounds
import CurlWarden.Proofs.Session.Delay
import CurlWarden.Proofs.Session.Concurrency
import CurlWarden.Proofs.Session.Isolation
import CurlWarden.Proofs.Policy.CommandLine
import CurlWarden.Proofs.Policy.Values
import CurlWarden.Proofs.Probe.Secrecy
import CurlWarden.Proofs.Json.Printed
import CurlWarden.Proofs.Json.RoundTrip
import CurlWarden.Proofs.Diagnostics.Metadata
import CurlWarden.Proofs.Report.Envelope
import CurlWarden.Proofs.Terminal.Output
import CurlWarden.Proofs.Terminal.DryRun
import CurlWarden.Proofs.Text.Lines
import CurlWarden.Proofs.Policy.Trimming
import CurlWarden.Proofs.Probe.AuditTrail
import CurlWarden.Proofs.Url.Reference
import CurlWarden.Proofs.Policy.Address
import CurlWarden.Proofs.Diagnostics.Expression
import CurlWarden.Proofs.Diagnostics.Datum
import CurlWarden.Proofs.Diagnostics.Extraction
import CurlWarden.Proofs.Policy.Objection
import CurlWarden.Proofs.Policy.Ceilings
import CurlWarden.Proofs.Text.Search
import CurlWarden.Proofs.Command.Block
import CurlWarden.Proofs.Text.Utf8
import CurlWarden.Proofs.Text.Broken
import CurlWarden.Proofs.Child.Capture
import CurlWarden.Proofs.Diagnostics.Growth
import CurlWarden.Proofs.Diagnostics.ResponseLines
import CurlWarden.Proofs.Policy.Credentials
import CurlWarden.Proofs.Session.InForce
import CurlWarden.Proofs.Text.Split
import CurlWarden.Proofs.Text.Trim
import CurlWarden.Proofs.Tool.History
import CurlWarden.Proofs.Tool.Signature
