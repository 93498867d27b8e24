import GrillPlatform.Coroutine.Prog
import GrillPlatform.Coroutine.Pool
import GrillPlatform.Coroutine.Solo
import GrillPlatform.Table
import GrillPlatform.Models
import GrillPlatform.Repositories.RunRepository
import GrillPlatform.Repositories.NodeRepository
import GrillPlatform.Aggregation
import GrillPlatform.Storage
import GrillPlatform.Infra.Cloud
import GrillPlatform.Infra.Terraform
import GrillPlatform.World
import GrillPlatform.Orchestrator
import GrillPlatform.Services
import GrillPlatform.System
import GrillPlatform.Footprint
import GrillPlatform.RunRows
import GrillPlatform.Lifecycle
import GrillPlatform.Attempts
import GrillPlatform.NodeRows
import GrillPlatform.Recovery
import GrillPlatform.Tickets
import GrillPlatform.Exclusion
import GrillPlatform.Quota
import GrillPlatform.Provisioning
import GrillPlatform.Published
import GrillPlatform.Completion
import GrillPlatform.Retry
import GrillPlatform.Rejection
import GrillPlatform.Text.Cut
import GrillPlatform.Keys
import GrillPlatform.RunnerLogs
import GrillPlatform.Jsonl
import GrillPlatform.Hcl.Quoted
import GrillPlatform.Hcl.Template
import GrillPlatform.Hcl.Heredoc
import GrillPlatform.Hcl.File
import GrillPlatform.Hcl.Lines
import GrillPlatform.Tfvars
import GrillPlatform.Locking.SkipLocked
import GrillPlatform.Float.Decimal
import GrillPlatform.JsonText.Strings
import GrillPlatform.JsonText.Sequence
import GrillPlatform.Dumps
import GrillPlatform.Leaderboard
import GrillPlatform.Handover
import GrillPlatform.RecoveryStages
import GrillPlatform.Orphans
import GrillPlatform.Locking.Serial
import GrillPlatform.Claims
import GrillPlatform.ActivePairs
import GrillPlatform.AllowList
import GrillPlatform.Breakdown
import GrillPlatform.CapacityGate
import GrillPlatform.ConfirmedDestroy
import GrillPlatform.Resumption
import GrillPlatform.Scenarios
import GrillPlatform.Seq.Upsert
import GrillPlatform.Unpinned
import GrillPlatform.Unrepeated
import GrillPlatform.Upserts
import GrillPlatform.Watchdogs
import GrillPlatform.ModelsFile
import GrillPlatform.Deregistration
import GrillPlatform.Site.Filters
import GrillPlatform.Text.Leftmost
import GrillPlatform.Quantization
import GrillPlatform.Coroutine.History
import GrillPlatform.Discipline
import GrillPlatform.RowStates
import GrillPlatform.Grounded
import GrillPlatform.Payload
import GrillPlatform.Coroutine.Cell
import GrillPlatform.LeaderboardEdits
import GrillPlatform.Teardown
import GrillPlatform.Shell.Command
import GrillPlatform.RunnerScript
import GrillPlatform.RunnerReports
import GrillPlatform.RunnerAgreement
import GrillPlatform.BenchJob
import GrillPlatform.Yaml.Scalars
import GrillPlatform.CloudInit
import GrillPlatform.Float.Integer
import GrillPlatform.Coroutine.Watch
import GrillPlatform.Stakes
import GrillPlatform.Undisturbed
import GrillPlatform.Dashboard
import GrillPlatform.Ownership
import GrillPlatform.Yaml.Reading
import GrillPlatform.ConfigReaders
import GrillPlatform.ConfigDelivery
