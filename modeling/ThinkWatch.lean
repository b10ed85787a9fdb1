import ThinkWatch.Lib.Run
import ThinkWatch.Lib.Threads
import ThinkWatch.Lib.Expiring
import ThinkWatch.Lib.Keyed
import ThinkWatch.Lib.Glob
import ThinkWatch.Lib.Result
import ThinkWatch.Lib.CacheAside
import ThinkWatch.Lib.Cut
import ThinkWatch.Lib.Hex
import ThinkWatch.Lib.Rows
import ThinkWatch.Lib.PrefixMap
import ThinkWatch.Lib.SortedSet
import ThinkWatch.Lib.WeightedPick
import ThinkWatch.Lib.History
import ThinkWatch.Lib.ReadThrough
import ThinkWatch.Lib.Calendar
import ThinkWatch.Lib.Watermark
import ThinkWatch.Lib.Slots
import ThinkWatch.Lib.Filling
import ThinkWatch.Lib.Lines
import ThinkWatch.Lib.Framing
import ThinkWatch.Lib.Utf8
import ThinkWatch.Lib.Each
import ThinkWatch.Lib.Spans
import ThinkWatch.Lib.KeyedList
import ThinkWatch.Lib.JsonGrammar
import ThinkWatch.Lib.Delivery
import ThinkWatch.Lib.Syslog
import ThinkWatch.Lib.ByteCut
import ThinkWatch.Lib.Fresh
import ThinkWatch.Lib.Ticket
import ThinkWatch.Lib.Quoted
import ThinkWatch.Lib.Like
import ThinkWatch.Errors
import ThinkWatch.Validation
import ThinkWatch.Config.Settings
import ThinkWatch.Limits.Sliding
import ThinkWatch.Limits.SlidingStep
import ThinkWatch.Limits.SlidingWindow
import ThinkWatch.Limits.Budget
import ThinkWatch.Limits.BudgetAlerts
import ThinkWatch.Signature.Verify
import ThinkWatch.Signature.Replay
import ThinkWatch.Signature.Binding
import ThinkWatch.Session.Tokens
import ThinkWatch.Session.Machine
import ThinkWatch.Session.Refresh
import ThinkWatch.Session.Revocation
import ThinkWatch.Policy.Document
import ThinkWatch.Policy.Matchers
import ThinkWatch.Policy.Constraints
import ThinkWatch.Policy.Language
import ThinkWatch.Policy.Agreement
import ThinkWatch.Rbac.Tables
import ThinkWatch.Rbac.Guards
import ThinkWatch.Rbac.Handlers
import ThinkWatch.Rbac.Effects
import ThinkWatch.Rbac.SuperAdmin
import ThinkWatch.Rbac.TeamScope
import ThinkWatch.Rbac.Transactions
import ThinkWatch.Rbac.Quorum
import ThinkWatch.Rbac.PermCache
import ThinkWatch.Rbac.Startup
import ThinkWatch.Rbac.MembershipCap
import ThinkWatch.Policy.GatewayScope
import ThinkWatch.Keys.Table
import ThinkWatch.Keys.Handlers
import ThinkWatch.Keys.Access
import ThinkWatch.Keys.Interleaving
import ThinkWatch.Keys.Rotation
import ThinkWatch.Keys.Patch
import ThinkWatch.Keys.Authenticate
import ThinkWatch.Keys.GracePeriod
import ThinkWatch.Mcp.Registry
import ThinkWatch.Mcp.Session
import ThinkWatch.Mcp.SessionOwner
import ThinkWatch.Mcp.SessionReplicas
import ThinkWatch.Mcp.UserToken
import ThinkWatch.Mcp.ResponseCache
import ThinkWatch.Mcp.CacheIsolation
import ThinkWatch.Gateway.Router
import ThinkWatch.Gateway.AnsweringModel
import ThinkWatch.Gateway.Failure
import ThinkWatch.Gateway.Health
import ThinkWatch.Gateway.Retry
import ThinkWatch.Gateway.RouteCaps
import ThinkWatch.Gateway.Selection
import ThinkWatch.Gateway.Failover
import ThinkWatch.App.Reload
import ThinkWatch.App.InForce
import ThinkWatch.Mcp.Calls
import ThinkWatch.Mcp.CredentialChange
import ThinkWatch.Mcp.RefreshRace
import ThinkWatch.Gateway.Readers
import ThinkWatch.Gateway.Pump
import ThinkWatch.Gateway.OneAttempt
import ThinkWatch.Gateway.AttemptHealth
import ThinkWatch.Gateway.Prices
import ThinkWatch.Gateway.Preflight
import ThinkWatch.Gateway.ResponsesWs
import ThinkWatch.Auth.Totp
import ThinkWatch.Auth.SecondFactor
import ThinkWatch.Auth.Lockout
import ThinkWatch.Auth.ClientIp
import ThinkWatch.Auth.ProofOfWork
import ThinkWatch.Resources.ByteBudget
import ThinkWatch.Limits.FixedWindow
import ThinkWatch.Limits.SlidingWait
import ThinkWatch.Policy.Allowlists
import ThinkWatch.Audit.Outbox
import ThinkWatch.Mcp.CredentialTemplate
import ThinkWatch.Mcp.Sse
import ThinkWatch.Mcp.SseBroken
import ThinkWatch.Mcp.Breaker
import ThinkWatch.Mcp.SseChunking
import ThinkWatch.Mcp.SseBuffered
import ThinkWatch.Mcp.SseReaders
import ThinkWatch.Mcp.SseAgreement
import ThinkWatch.Limits.BudgetPeriods
import ThinkWatch.Config.Validators
import ThinkWatch.Policy.KeyCreation
import ThinkWatch.Gateway.JsonArray
import ThinkWatch.Policy.Serialize
import ThinkWatch.Gateway.CacheFingerprint
import ThinkWatch.Limits.BulkEdits
import ThinkWatch.Limits.BulkAgreement
import ThinkWatch.Mcp.RefreshAnswer
import ThinkWatch.Gateway.EffectiveLimits
import ThinkWatch.Gateway.MinSpeed
import ThinkWatch.Gateway.MeasuredSpeed
import ThinkWatch.Gateway.RetryClock
import ThinkWatch.Policy.GlobMatch
import ThinkWatch.Auth.RecoveryCodes
import ThinkWatch.Resources.PatternDelete
import ThinkWatch.Audit.Worker
import ThinkWatch.Resources.CachedBody
import ThinkWatch.Audit.Syslog
import ThinkWatch.Policy.Walk
import ThinkWatch.Audit.Sanitize
import ThinkWatch.Audit.TextCuts
import ThinkWatch.Mcp.RefreshLocks
import ThinkWatch.Guards.Policy
import ThinkWatch.Guards.Legacy
import ThinkWatch.Guards.SavedAgain
import ThinkWatch.Auth.Sso
import ThinkWatch.Auth.SsoBinding
import ThinkWatch.Logs.Query
import ThinkWatch.Logs.Excludes
import ThinkWatch.Gateway.Sealed
import ThinkWatch.Gateway.SealedRuns
import ThinkWatch.Lib.Recent
import ThinkWatch.Gateway.EffortMemory
import ThinkWatch.Gateway.Resend
import ThinkWatch.Gateway.Learned
import ThinkWatch.Gateway.Ladder
import ThinkWatch.Lib.Editing
import ThinkWatch.Providers.Secrets
import ThinkWatch.Providers.Edits
import ThinkWatch.Providers.Form
import ThinkWatch.Lib.RowLocks
import ThinkWatch.Mcp.Accounts
import ThinkWatch.Mcp.Connected
