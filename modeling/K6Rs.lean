import K6Rs.Verification.Metrics.Untagged
import K6Rs.Verification.Thresholds.Parse
import K6Rs.Verification.Thresholds.Resolve
import K6Rs.Verification.Thresholds.Timers
import K6Rs.Verification.Pool.Arrival
import K6Rs.Verification.Pool.Iterations
import K6Rs.Verification.Coroutine.Accounting
import K6Rs.Verification.Coroutine.Resolution
import K6Rs.Verification.Coroutine.Supply
import K6Rs.Verification.Coroutine.Outcome
import K6Rs.Verification.Coroutine.Driver
import K6Rs.Verification.RateLimiter
import K6Rs.Verification.Http.Redirect
import K6Rs.Verification.Http.Reuse
import K6Rs.Verification.Http.Isolation
import K6Rs.Verification.Http.Blocking
import K6Rs.Verification.CookieJar.Isolation
import K6Rs.Verification.Console
import K6Rs.Verification.EventStream.Delivery
import K6Rs.Verification.EventStream.Definitions
import K6Rs.Verification.Control
import K6Rs.Model.Backpressure
import K6Rs.Verification.Backpressure
import K6Rs.Model.Lifecycle
import K6Rs.Verification.Lifecycle
import K6Rs.Model.CliRun
import K6Rs.Verification.CliRun
import K6Rs.Model.WsSession
import K6Rs.Verification.WsSession
import K6Rs.Model.JsonStream
import K6Rs.Verification.EventStream.Reader
import K6Rs.Library.KeyTree
import K6Rs.Model.Groups
import K6Rs.Verification.Groups.Tree
import K6Rs.Verification.Groups.Nesting
import K6Rs.Model.GroupSummary
import K6Rs.Verification.Groups.Readers
import K6Rs.Verification.Metrics.Histories
import K6Rs.Verification.Metrics.Aggregate
import K6Rs.Model.Summary
import K6Rs.Verification.Summary.Submetric
import K6Rs.Model.Taints
import K6Rs.Verification.Summary.Shown
import K6Rs.Verification.Taints
import K6Rs.Verification.Selector.Grammar
import K6Rs.Library.Double
import K6Rs.Model.RunDiff
import K6Rs.Verification.RunDiff
import K6Rs.Verification.Pool.Integral
import K6Rs.Model.Sink
import K6Rs.Verification.Metrics.Sink
import K6Rs.Model.ScriptMetrics
import K6Rs.Verification.Metrics.Script
import K6Rs.Model.PrepareScript
import K6Rs.Library.Walk
import K6Rs.Verification.Script.Imports
import K6Rs.Model.Config
import K6Rs.Model.FloatCurve
import K6Rs.Library.DoubleBound
import K6Rs.Verification.Config
import K6Rs.Verification.Pool.Dispatch
import K6Rs.Verification.Script.Lines
import K6Rs.Verification.Script.Modules
import K6Rs.Verification.Script.Paths
import K6Rs.Verification.Config.Fields
import K6Rs.Library.DoubleError
import K6Rs.Verification.Config.Durations
import K6Rs.Model.CliOverrides
import K6Rs.Verification.Config.Overrides
import K6Rs.Model.Env
import K6Rs.Verification.Env
import K6Rs.Verification.Http.Chain
import K6Rs.Model.ResponseBody
import K6Rs.Verification.Http.Body
import K6Rs.Model.ResponseCallback
import K6Rs.Verification.Http.Statuses
import K6Rs.Verification.Http.RequestHeaders
import K6Rs.Library.XorShift
import K6Rs.Model.RandomSeed
import K6Rs.Verification.RandomSeed
import K6Rs.Model.WsConnect
import K6Rs.Verification.WsConnect
import K6Rs.Model.Streams
import K6Rs.Verification.Streams
import K6Rs.Library.Hex
import K6Rs.Model.WebCrypto
import K6Rs.Verification.WebCrypto.Hex
import K6Rs.Verification.WebCrypto.Content
import K6Rs.Library.JsString
import K6Rs.Model.Csv
import K6Rs.Verification.Csv.Format
import K6Rs.Verification.Csv.ReadsBack
import K6Rs.Model.Html
import K6Rs.Verification.Html.Selections
import K6Rs.Library.JsonGrammar
import K6Rs.Verification.Html.Json
import K6Rs.Model.MetricContains
import K6Rs.Verification.MetricContains
import K6Rs.Library.Decimal
import K6Rs.Library.Escape
import K6Rs.Model.InfluxDb
import K6Rs.Verification.InfluxDb
import K6Rs.Library.Rfc4180
import K6Rs.Model.CsvOutput
import K6Rs.Verification.CsvOutput
import K6Rs.Model.VuRamp
import K6Rs.Verification.Pool.VuRamp
import K6Rs.Model.RampingControl
import K6Rs.Verification.Pool.RampingControl
import K6Rs.Verification.Expectations
import K6Rs.Library.WorkQueue
import K6Rs.Model.PendingJobs
import K6Rs.Verification.PendingJobs
import K6Rs.Model.ResponseHeaders
import K6Rs.Verification.Http.ResponseHeaders
import K6Rs.Library.JsLiteral
import K6Rs.Model.SetupData
import K6Rs.Verification.Script.SetupData
import K6Rs.Model.Conformance
import K6Rs.Verification.Conformance.Adapter
import K6Rs.Verification.Conformance.Report
import K6Rs.Verification.Metrics.Reads
import K6Rs.Verification.Metrics.SinkRun
import K6Rs.Model.BuiltinMetrics
import K6Rs.Verification.Metrics.Builtin
