import Timetable.Text.Blank
import Timetable.Text.Decimal
import Timetable.Text.Limit
import Timetable.Text.Quoted
import Timetable.Calendar.Date
import Timetable.Calendar.Instant
import Timetable.Cron.Field
import Timetable.Cron.Expression
import Timetable.Cron.Search
import Timetable.Job.Basic
import Timetable.Job.Spec
import Timetable.Job.Schedule
import Timetable.Job.Query
import Timetable.Run
import Timetable.Text.Pattern
import Timetable.Store.Row
import Timetable.Store.Basic
import Timetable.Store.Enqueue
import Timetable.Store.Statement
import Timetable.Store.Database
import Timetable.Program
import Timetable.Scheduler
import Timetable.Json.Basic
import Timetable.Json.Reader
import Timetable.Json.Record
import Timetable.Settings.Basic
import Timetable.Store.Direct
import Timetable.Management
import Timetable.Worker.Context
import Timetable.Worker.Outcome
import Timetable.Worker.Claim
import Timetable.Worker.Phase
import Timetable.Webhook
import Timetable.Rehearsal
import Timetable.Command.Line
import Timetable.Command.Basic
import Timetable.Command.Invocation
import Timetable.Settings.Value
import Timetable.Toml.Word
import Timetable.Toml.Scalar
import Timetable.Toml.Table
import Timetable.Toml.Document
import Timetable.Settings.Environment
import Timetable.Settings.Load
import Timetable.Store.File
import Timetable.Command.Ending
import Timetable.Text.Utf8
import Timetable.Shell.Script
import Timetable.Shell.Token
import Timetable.Shell.Reader
import Timetable.Shell.Format
import Timetable.Shell.Machine
import Timetable.Shell.Tools
import Timetable.Shell.Arithmetic
import Timetable.Shell.Run
import Timetable.Shell.Task
import Timetable.Command.Help
import Timetable.Service
import Timetable.Main
import Timetable.Proofs.Calendar
import Timetable.Proofs.Cron.Reading
import Timetable.Proofs.Cron.Search
import Timetable.Proofs.Store.Identity
import Timetable.Proofs.Store.Ledger
import Timetable.Proofs.Store.Lifecycle
import Timetable.Proofs.Operations
import Timetable.Proofs.Session
import Timetable.Proofs.Interleaving
import Timetable.Proofs.ExclusiveClaims
import Timetable.Proofs.OneWayRuns
import Timetable.Proofs.Overtaking
import Timetable.Proofs.InterruptedPass
import Timetable.Proofs.Edits
import Timetable.Proofs.Crew
import Timetable.Proofs.RunningRuns
import Timetable.Proofs.Overlap
import Timetable.Proofs.FireOrder
import Timetable.Proofs.RacingLoops
import Timetable.Proofs.Cron.Window
import Timetable.Proofs.Pass.Loops
import Timetable.Proofs.CatchUp
import Timetable.Proofs.Specification
import Timetable.Proofs.DueFires
import Timetable.Proofs.Store.Jobs
import Timetable.Proofs.Disabling
import Timetable.Proofs.Integrity
import Timetable.Proofs.DefinitionErrors
import Timetable.Proofs.Startup
import Timetable.Proofs.Cron.Succession
import Timetable.Proofs.Coherence
import Timetable.Proofs.QueueOrder
import Timetable.Proofs.Snapshots
import Timetable.Proofs.Handouts
import Timetable.Proofs.Cron.Grammar
import Timetable.Proofs.Firing
import Timetable.Proofs.TextLimits
import Timetable.Proofs.Catalogue.Commands
import Timetable.Proofs.Cron.ListOrder
import Timetable.Proofs.Saving
import Timetable.Proofs.Normalization
import Timetable.Proofs.Listing
import Timetable.Proofs.Selections
import Timetable.Proofs.SearchTerms
import Timetable.Proofs.Classification
import Timetable.Proofs.Drain
import Timetable.Proofs.Cron.Shown
import Timetable.Proofs.Cutting
import Timetable.Proofs.History
import Timetable.Proofs.Stamps
