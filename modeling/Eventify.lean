import Eventify.Library.Machine
import Eventify.Library.Table
import Eventify.Library.Chain
import Eventify.Domain
import Eventify.Database
import Eventify.Serialization
import Eventify.Bookings.Service
import Eventify.Bookings.Moves
import Eventify.Bookings.Committed
import Eventify.Bookings.Seats
import Eventify.Bookings.Calls
import Eventify.Bookings.Ledger
import Eventify.Events.Service
import Eventify.Outbox.Dispatch
import Eventify.Outbox.Worker
import Eventify.Outbox.Steps
import Eventify.Outbox.Rows
import Eventify.Outbox.Delivery
import Eventify.Outbox.Terminal
import Eventify.Outbox.Waitlist
import Eventify.Auth.Sessions
import Eventify.Auth.Families
import Eventify.Auth.Replay
import Eventify.Events.Listing
import Eventify.Cache.CacheAside
import Eventify.Cache.ListReads
import Eventify.Events.Requests
import Eventify.Events.Coherence
import Eventify.Cache.DetailReads
import Eventify.Events.Ownership
import Eventify.Bookings.Fairness
import Eventify.Outbox.Grants
import Eventify.Outbox.Redispatch
import Eventify.Auth.Logout
import Eventify.Auth.WebClient
import Eventify.Auth.Conflicts
import Eventify.Auth.Throttle
import Eventify.Bookings.Promotion
import Eventify.Events.Deletion
import Eventify.Events.Paging
import Eventify.Retries
import Eventify.Cache.Calls
import Eventify.Cache.Transparency
import Eventify.Cache.MissLock
import Eventify.Cache.Staleness
import Eventify.Library.Batches
import Eventify.Outbox.Backlog
import Eventify.Auth.Accounts
import Eventify.Auth.Signup
import Eventify.Auth.Login
import Eventify.Auth.Lockout
import Eventify.Library.Codes
import Eventify.Outbox.Mail
import Eventify.Outbox.Polling
import Eventify.Auth.LegacyHashes
import Eventify.Library.Windows
import Eventify.RateLimit
import Eventify.Web.Server
import Eventify.Web.ServiceWorker
import Eventify.Web.Shell
import Eventify.Web.Revalidation
import Eventify.Library.Exposition
import Eventify.Library.OrderedMap
import Eventify.Observability.Cardinality
import Eventify.Observability.Samples
import Eventify.Library.Json
import Eventify.Observability.Logger
import Eventify.Observability.LogLines
import Eventify.Observability.RouteLabels
import Eventify.Auth.AccessTokens
import Eventify.Auth.Rehash
import Eventify.Platform.Requests
import Eventify.Platform.Provenance
import Eventify.Platform.Accountability
import Eventify.Platform.Lockout
import Eventify.Library.Accounts
import Eventify.Cache.Accounting
import Eventify.Library.FormEncoding
import Eventify.Events.Filters
import Eventify.Cache.ListKeys
import Eventify.Auth.EarnedLocks
import Eventify.Outbox.Mailing
import Eventify.Library.Shutdown
import Eventify.Process.Polling
import Eventify.Process.Serving
import Eventify.RateLimitOutages
import Eventify.Process.Startup
import Eventify.Library.Renewal
import Eventify.Process.Readiness
import Eventify.Library.Rounding
