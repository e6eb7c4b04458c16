import Gateway.Semantics.Transition
import Gateway.Semantics.Redis
import Gateway.Semantics.Ranking
import Gateway.Semantics.Observation
import Gateway.Semantics.Noninterference
import Gateway.Semantics.SingleFlight
import Gateway.Semantics.Dict
import Gateway.Semantics.Text
import Gateway.Semantics.Calendar
import Gateway.Semantics.DateTime
import Gateway.Semantics.TokenBucket
import Gateway.Semantics.Http
import Gateway.Semantics.Rfc3986
import Gateway.Semantics.Json
import Gateway.Semantics.JsonEqual
import Gateway.Semantics.Jsonb
import Gateway.Semantics.Utf8
import Gateway.Semantics.PrefixCode
import Gateway.Semantics.JsonText
import Gateway.Semantics.JsonString
import Gateway.Semantics.JsonDocument
import Gateway.Semantics.IsoFormat
import Gateway.Semantics.Glob
import Gateway.Semantics.Regex
import Gateway.Middleware.RateLimit
import Gateway.Middleware.RateLimitConformance
import Gateway.Db.Models
import Gateway.Cache.ResponseCache
import Gateway.Cache.Dedup
import Gateway.Cache.Fingerprint
import Gateway.Cache.Codecs
import Gateway.Quota.Tracker
import Gateway.Quota.Rollover
import Gateway.Quota.Callers
import Gateway.Quota.Expiry
import Gateway.Quota.Counting
import Gateway.Quota.Tally
import Gateway.Vendors.Client
import Gateway.Vendors.Adapters
import Gateway.Vendors.Registry
import Gateway.Vendors.Coherence
import Gateway.Vendors.Reload
import Gateway.Vendors.Staleness
import Gateway.Admin.VendorConfigs
import Gateway.Admin.Api
import Gateway.Admin.Registers
import Gateway.Quota.Readers
import Gateway.Quota.Reports
import Gateway.Vendors.OAuth
import Gateway.Vendors.TokenFlight
import Gateway.Vendors.Refresh
import Gateway.Routes.Proxy
import Gateway.Routes.Machine
import Gateway.Routes.Flow
import Gateway.Runs.Lease
import Gateway.Runs.Rounds
import Gateway.Runs.Wakeup
import Gateway.Runs.Termination
import Gateway.Runs.Herd
import Gateway.Runs.HardBlock
import Gateway.Runs.Provenance
import Gateway.Runs.Guided
import Gateway.Runs.Freshness
import Gateway.Runs.Transparency
import Gateway.Runs.Frame
import Gateway.Runs.Survival
import Gateway.Jobs.Manager
import Gateway.Jobs.Fidelity
import Gateway.Jobs.Worker
import Gateway.Jobs.Lifecycle
import Gateway.Jobs.Batch
import Gateway.Jobs.Termination
import Gateway.Jobs.Pickup
import Gateway.Routes.Relay
import Gateway.Routes.Credentials
import Gateway.Routes.EndpointPolicy
import Gateway.Routes.Query
import Gateway.Routes.VendorUrl
import Gateway.Auth.Jwt
import Gateway.Auth.PortalTokens
import Gateway.Auth.Revocation
import Gateway.Auth.Dependencies
import Gateway.Auth.CurrentUser
import Gateway.Auth.SigningKeys
import Gateway.Auth.KeyRotation
import Gateway.Auth.PortalSessions
import Gateway.Cache.Flush
import Gateway.Cache.FlushRuns
import Gateway.Runs.Sources
import Gateway.Runs.Negotiation
import Gateway.Runs.Barrier
import Gateway.Admin.VendorLimits
import Gateway.Middleware.RateLimitClocks
import Gateway.Middleware.Wiring
import Gateway.Middleware.Reconfiguration
import Gateway.Middleware.Isolation
import Gateway.Middleware.Paths
import Gateway.Jobs.Served
import Gateway.Jobs.Sessions
import Gateway.Jobs.Polling
import Gateway.Jobs.Accounting
import Gateway.Jobs.Confidentiality
import Gateway.Jobs.Webhook
import Gateway.Middleware.RequestLog
