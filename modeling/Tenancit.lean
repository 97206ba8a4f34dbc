import Tenancit.Lib.Runs
import Tenancit.Lib.Program
import Tenancit.Lib.Table
import Tenancit.Lib.Stamps
import Tenancit.Lib.Encoding
import Tenancit.Lib.Aead
import Tenancit.Lib.Json
import Tenancit.Lib.Text
import Tenancit.Lib.Overlay
import Tenancit.Lib.Locks
import Tenancit.Store.Schema
import Tenancit.Store.Catalog
import Tenancit.Store.CatalogSpec
import Tenancit.Store.CatalogInvariant
import Tenancit.Store.Aliases
import Tenancit.Store.CatalogStamps
import Tenancit.Crypto
import Tenancit.Service.Identity
import Tenancit.Service.Values
import Tenancit.Service.ResourceFields
import Tenancit.Service.Provision
import Tenancit.Service.ProvisionSpec
import Tenancit.Service.Resolve
import Tenancit.Service.ResolveOne
import Tenancit.Service.ETag
import Tenancit.Service.ResolveTag
import Tenancit.Store.Clients
import Tenancit.Store.Events
import Tenancit.Events.Catalog
import Tenancit.Service.ApiClientPolicy
import Tenancit.Idempotency.Store
import Tenancit.Httpapi.Audit
import Tenancit.Httpapi.Admin
import Tenancit.Httpapi.AdminActions
import Tenancit.Httpapi.ApiClientLifecycle
import Tenancit.Httpapi.Consumer
import Tenancit.Httpapi.Requests
import Tenancit.Httpapi.Transactions
import Tenancit.Httpapi.Statements
import Tenancit.Httpapi.Names
import Tenancit.Httpapi.Links
import Tenancit.Httpapi.ConsumerReads
import Tenancit.Httpapi.TagChanges
import Tenancit.Httpapi.ResolveOne
import Tenancit.Httpapi.Duplicates
import Tenancit.Httpapi.MaskedListing
import Tenancit.Httpapi.Recording
import Tenancit.Httpapi.Availability
import Tenancit.Httpapi.ConsumerWrites
import Tenancit.Httpapi.ConsumerWindows
import Tenancit.Lib.Calendar
import Tenancit.Auditops.Encoder
import Tenancit.Auditops.Export
import Tenancit.Auditops.ExportRuns
import Tenancit.Auditops.OneShot
import Tenancit.Auditops.Isolation
import Tenancit.Settings.Registry
import Tenancit.Settings.Repository
import Tenancit.Settings.Consistency
import Tenancit.Settings.Updates
import Tenancit.Adminauth.Sessions
import Tenancit.Adminauth.Validity
import Tenancit.Adminauth.Revocation
import Tenancit.Adminauth.Login
import Tenancit.Adminauth.SingleUse
import Tenancit.Settings.Policies
import Tenancit.Rewrap.Batch
import Tenancit.Values.Operations
import Tenancit.Values.Agreement
import Tenancit.Values.Reading
import Tenancit.Values.Maintenance
import Tenancit.Values.Effective
import Tenancit.Values.Required
import Tenancit.Rewrap.Preflight
import Tenancit.Rewrap.Runner
import Tenancit.Rewrap.Safety
import Tenancit.Rewrap.Campaigns
import Tenancit.Lib.Transactions
import Tenancit.Webhook.Deliveries
import Tenancit.Webhook.Interleaving
import Tenancit.Webhook.Leases
import Tenancit.Webhook.DeadLetters
import Tenancit.Webhook.Worker
import Tenancit.Webhook.Circuit
import Tenancit.Httpapi.AdminSession
import Tenancit.Adminauth.IdleExpiry
import Tenancit.Httpapi.ApiTokens
import Tenancit.Httpapi.AuditFits
import Tenancit.Httpapi.OperationalReports
import Tenancit.Lib.Dates
import Tenancit.Lib.Tally
import Tenancit.Lib.TokenBucket
import Tenancit.Ratelimit.Agreement
import Tenancit.Ratelimit.Memory
import Tenancit.Rewrap.SafetyEvidence
import Tenancit.Service.Hostname
import Tenancit.Service.HostnameMigration
import Tenancit.Usage.Accounting
import Tenancit.Webhook.Attempts
import Tenancit.Adminauth.BasePath
import Tenancit.Adminauth.Redirects
import Tenancit.Httpapi.Cursors
import Tenancit.Httpapi.HostnameReads
import Tenancit.Httpapi.PageRuns
import Tenancit.Httpapi.RateLimit
import Tenancit.Lib.Addresses
import Tenancit.Lib.Months
import Tenancit.Lib.Slog
import Tenancit.Rewrap.Paging
import Tenancit.Service.ETagTuples
import Tenancit.Spa.BasePath
import Tenancit.Telemetry.Logging
import Tenancit.Telemetry.Redaction
import Tenancit.Usage.Retention
import Tenancit.Webhook.Endpoints
import Tenancit.Webhook.Retention
import Tenancit.Webhook.RetentionBeside
import Tenancit.Webhook.RetentionExact
import Tenancit.Lib.RangePartitions
import Tenancit.Lib.OnceTable
import Tenancit.Auditops.Maintenance
import Tenancit.Auditops.MaintenanceSpec
import Tenancit.Auditops.MaintenanceRuns
import Tenancit.Idempotency.Interleaving
import Tenancit.Idempotency.OnceOnly
import Tenancit.Httpapi.CatalogRequests
import Tenancit.Httpapi.TokenHistory
import Tenancit.Httpapi.AdminRoutes
import Tenancit.Httpapi.Accountability
import Tenancit.Lib.Polls
import Tenancit.Httpapi.FeedPolls
import Tenancit.Web.TransientResourceReveal
import Tenancit.Lib.Csv
import Tenancit.Lib.JsonReader
import Tenancit.Auditops.ExportText
import Tenancit.Lib.Base64
import Tenancit.Crypto.FromEnv
import Tenancit.Crypto.Cutover
