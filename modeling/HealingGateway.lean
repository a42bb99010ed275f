import HealingGateway.Library.Programs
import HealingGateway.Library.SortedSets
import HealingGateway.Library.JsonText
import HealingGateway.Library.JsonRoundTrip
import HealingGateway.Library.Dicts
import HealingGateway.Library.Redis
import HealingGateway.Library.Quantiles
import HealingGateway.Taxonomy
import HealingGateway.Config
import HealingGateway.Records
import HealingGateway.Effects
import HealingGateway.Library.Texts
import HealingGateway.Health
import HealingGateway.Breaker
import HealingGateway.Window
import HealingGateway.Outside
import HealingGateway.Percentiles
import HealingGateway.WindowStore
import HealingGateway.Monitor
import HealingGateway.MonitorStore
import HealingGateway.Sequential
import HealingGateway.Tolerance
import HealingGateway.Trip
import HealingGateway.CallerFaults
import HealingGateway.Probes
import HealingGateway.Library.Protocols
import HealingGateway.Library.Pools
import HealingGateway.Library.Schedules
import HealingGateway.Library.Histories
import HealingGateway.Tasks
import HealingGateway.Races
import HealingGateway.Library.Turns
import HealingGateway.Queue
import HealingGateway.JobApi
import HealingGateway.JobRecords
import HealingGateway.Expiry
import HealingGateway.Chaos
import HealingGateway.Providers
import HealingGateway.Schemas
import HealingGateway.Credentials
import HealingGateway.Router
import HealingGateway.Library.Failures
import HealingGateway.Outages
import HealingGateway.FailOpen
import HealingGateway.Library.Runs
import HealingGateway.Footprint
import HealingGateway.Rendering
import HealingGateway.Worker
import HealingGateway.JobStores
import HealingGateway.JobHomes
import HealingGateway.Library.Expansions
import HealingGateway.Moves
import HealingGateway.Rungs
import HealingGateway.Journals
import HealingGateway.Trails
import HealingGateway.HedgedWalk
import HealingGateway.TrailEntries
import HealingGateway.PlainWalk
import HealingGateway.Idempotency
import HealingGateway.Completions
import HealingGateway.KeyedRequests
import HealingGateway.KeyHistories
import HealingGateway.KeyIsolation
import HealingGateway.KeyOwnership
import HealingGateway.ClaimRelease
import HealingGateway.Responses
import HealingGateway.Library.Tallies
import HealingGateway.Ledgers
import HealingGateway.CallAccounts
import HealingGateway.Library.Tokens
import HealingGateway.JobPlaces
import HealingGateway.JobExclusivity
import HealingGateway.JobTicks
import HealingGateway.Library.Budgets
import HealingGateway.RetryBudget
import HealingGateway.Library.Deliveries
import HealingGateway.HedgedAnswers
import HealingGateway.Actions
import HealingGateway.Cooldowns
import HealingGateway.Recovery
import HealingGateway.Summaries
import HealingGateway.CallLogs
import HealingGateway.JobRoundTrip
import HealingGateway.EarliestDue
import HealingGateway.DeadLetters
import HealingGateway.HedgeAccounts
import HealingGateway.Failovers
import HealingGateway.ProbeDraws
import HealingGateway.Pinning
import HealingGateway.Translation
import HealingGateway.Admin
import HealingGateway.Warrants
import HealingGateway.Service
import HealingGateway.Keyspace
import HealingGateway.Traffic
import HealingGateway.Library.Registers
import HealingGateway.Faults
import HealingGateway.Replies
import HealingGateway.Endings
import HealingGateway.Uptime
import HealingGateway.Library.Collectors
import HealingGateway.Metrics
import HealingGateway.Library.Shares
import HealingGateway.Availability
import HealingGateway.Provenance
import HealingGateway.Attribution
import HealingGateway.Testimony
import HealingGateway.Tenancy
import HealingGateway.Billing
import HealingGateway.Drills
import HealingGateway.Integrity
import HealingGateway.Rounds
import HealingGateway.AnswerOrigins
import HealingGateway.CallOrigins
import HealingGateway.ResultOrigins
