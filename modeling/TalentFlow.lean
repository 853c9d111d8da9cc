import TalentFlow.Async.Monitor
import TalentFlow.Gateway.Schema
import TalentFlow.Data.Expiring
import TalentFlow.Data.Json
import TalentFlow.Data.Regex
import TalentFlow.Data.Replace
import TalentFlow.Data.Cut
import TalentFlow.Data.Percent
import TalentFlow.Data.Url
import TalentFlow.Data.Paging
import TalentFlow.Data.Grouping
import TalentFlow.Data.Ranges
import TalentFlow.Data.InsertionMap
import TalentFlow.Data.Zone
import TalentFlow.Gateway.Prisma
import TalentFlow.Gateway.Redis
import TalentFlow.Gateway.World
import TalentFlow.Gateway.Auth
import TalentFlow.Gateway.Applications
import TalentFlow.Gateway.Interviews
import TalentFlow.Gateway.Sanitize
import TalentFlow.Gateway.SanitizeUrl
import TalentFlow.Gateway.FileValidation
import TalentFlow.Gateway.Observability
import TalentFlow.Gateway.Metrics
import TalentFlow.Parser.Validation
import TalentFlow.Parser.PiiRedactor
import TalentFlow.Gateway.Requests
import TalentFlow.Gateway.Analytics
import TalentFlow.Gateway.Listings
import TalentFlow.Gateway.Steps
import TalentFlow.Gateway.Footprint
import TalentFlow.Gateway.WellFormed
import TalentFlow.Guarantees.Withdrawal
import TalentFlow.Guarantees.Privilege
import TalentFlow.Guarantees.Rotation
import TalentFlow.Guarantees.Logout
import TalentFlow.Async.Tally
import TalentFlow.Guarantees.Lockout
import TalentFlow.Guarantees.Submission
import TalentFlow.Guarantees.Upload
import TalentFlow.Async.Sequential
import TalentFlow.Gateway.Alone
import TalentFlow.Guarantees.Listing
import TalentFlow.Guarantees.Acceptance
import TalentFlow.Async.EventLoop
import TalentFlow.Async.Stages
import TalentFlow.Gateway.Topology
import TalentFlow.Gateway.QueueService
import TalentFlow.Gateway.QueueStages
import TalentFlow.Gateway.QueueSegments
import TalentFlow.Guarantees.Reconnect
import TalentFlow.Guarantees.Connections
import TalentFlow.Guarantees.Shutdown
import TalentFlow.Guarantees.Publishing
import TalentFlow.Guarantees.Topology
import TalentFlow.Guarantees.Closing
import TalentFlow.Guarantees.Viewing
import TalentFlow.Guarantees.Ownership
import TalentFlow.Guarantees.Disclosure
import TalentFlow.Guarantees.Confinement
import TalentFlow.Guarantees.Orphans
import TalentFlow.Guarantees.Reviewing
import TalentFlow.Guarantees.LockDuration
import TalentFlow.Guarantees.Redaction
import TalentFlow.Guarantees.Handover
import TalentFlow.Guarantees.Observed
import TalentFlow.Guarantees.Paging
import TalentFlow.Guarantees.Counts
import TalentFlow.Guarantees.Pending
import TalentFlow.Guarantees.FileChecks
import TalentFlow.Async.Abandon
import TalentFlow.Guarantees.TemporaryLock
import TalentFlow.Guarantees.Reapplying
import TalentFlow.Guarantees.Residue
import TalentFlow.Guarantees.CardGroups
import TalentFlow.Guarantees.CardNumbers
import TalentFlow.Guarantees.Credentials
import TalentFlow.Guarantees.Tokens
import TalentFlow.Guarantees.UrlRedaction
import TalentFlow.Guarantees.Backoff
import TalentFlow.Guarantees.JobFilters
import TalentFlow.Guarantees.Trends
import TalentFlow.Guarantees.Scheduling
import TalentFlow.Guarantees.RequestIds
import TalentFlow.Guarantees.MetricLabels
import TalentFlow.Guarantees.TwoPaths
import TalentFlow.Async.Guarded
import TalentFlow.Gateway.Routes
import TalentFlow.Guarantees.Served
import TalentFlow.Guarantees.Identity
import TalentFlow.Guarantees.Mediation
import TalentFlow.Guarantees.Policy
import TalentFlow.Guarantees.Revocation
import TalentFlow.Async.Bounded
import TalentFlow.Guarantees.SignIn
import TalentFlow.Guarantees.Sessions
import TalentFlow.Guarantees.SecurityLog
import TalentFlow.Guarantees.Delivery
import TalentFlow.Guarantees.AllOrNothing
import TalentFlow.Guarantees.Progress
import TalentFlow.Guarantees.Brokering
import TalentFlow.Guarantees.Accounts
import TalentFlow.Async.Twins
import TalentFlow.Data.Matching
import TalentFlow.Guarantees.Secrecy
