import IspPlatform.Lib.Rolling
import IspPlatform.Lib.Share
import IspPlatform.Lib.Codes
import IspPlatform.Py.Lists
import IspPlatform.Py.Text
import IspPlatform.Py.Repr
import IspPlatform.Py.Substring
import IspPlatform.Py.Cuts
import IspPlatform.Py.Decimal
import IspPlatform.Py.Numerals
import IspPlatform.Py.Regex
import IspPlatform.Py.Unicode
import IspPlatform.Py.Machine
import IspPlatform.Py.Async
import IspPlatform.Py.Pool
import IspPlatform.Prometheus.TextFormat
import IspPlatform.Prometheus.Unescaped
import IspPlatform.Prometheus.Query
import IspPlatform.Prometheus.Alerts
import IspPlatform.Domain.Money
import IspPlatform.Domain.Display
import IspPlatform.Domain.ParseErrors
import IspPlatform.Domain.Transport
import IspPlatform.SyntheticData.Generate
import IspPlatform.SyntheticData.Subscribers
import IspPlatform.Api.Webhook
import IspPlatform.Api.Deliveries
import IspPlatform.Api.FollowUp
import IspPlatform.Api.Settled
import IspPlatform.Api.Alarms
import IspPlatform.Api.Disclosure
import IspPlatform.Api.Fixtures
import IspPlatform.Api.FixtureRuns
import IspPlatform.Concurrency.Calls
import IspPlatform.Concurrency.DualStore
import IspPlatform.Concurrency.Stores
import IspPlatform.Concurrency.StoreRuns
import IspPlatform.Concurrency.Audit
import IspPlatform.Concurrency.AuditTrail
import IspPlatform.Concurrency.EntityLock
import IspPlatform.Concurrency.NestedLocks
import IspPlatform.Concurrency.Backend
import IspPlatform.Concurrency.Leases
import IspPlatform.Concurrency.NestedUsers
import IspPlatform.Concurrency.LockedRuns
import IspPlatform.Concurrency.UnderTokens
import IspPlatform.Concurrency.Histories
import IspPlatform.Workers.Heartbeat
import IspPlatform.Workers.HeartbeatRows
import IspPlatform.Workers.JobRegistry
import IspPlatform.Observability.LivenessMetrics
import IspPlatform.Observability.LivenessDecoding
import IspPlatform.Observability.LivenessRules
import IspPlatform.Observability.WorkerAlerts
import IspPlatform.Ai.ApprovalGate
import IspPlatform.Ai.ApprovalSteps
import IspPlatform.Ai.ApprovalRuns
import IspPlatform.Ai.ApprovalLimits
import IspPlatform.Ai.ApprovalLog
import IspPlatform.Ai.ApprovalArguments
import IspPlatform.Ai.ApprovalFinality
import IspPlatform.Ai.ApprovalFreeText
import IspPlatform.Ai.ApprovalRefusals
import IspPlatform.Ai.ToolGateway
import IspPlatform.Ai.ToolRuns
import IspPlatform.Ai.ToolSet
import IspPlatform.Ai.ToolRejections
import IspPlatform.Ai.EvalHarness
import IspPlatform.Ai.EvalRates
import IspPlatform.Ai.EvalNotes
import IspPlatform.Ai.Citations
import IspPlatform.Ai.ToolCalls
import IspPlatform.Ai.GroupNames
import IspPlatform.Guards.ConventionGuards
import IspPlatform.Guards.Docstrings
import IspPlatform.Guards.TrailingComments
import IspPlatform.Guards.Waivers
import IspPlatform.Guards.Main
