import OvertimeNotice.Text.Blank
import OvertimeNotice.Text.Quoted
import OvertimeNotice.Text.Numeral
import OvertimeNotice.Text.Map
import OvertimeNotice.Binary64.Whole
import OvertimeNotice.Binary64.Layout
import OvertimeNotice.Json.Reader
import OvertimeNotice.Json.Writer
import OvertimeNotice.Calendar.Moment
import OvertimeNotice.Routing
import OvertimeNotice.Row
import OvertimeNotice.State.Ledger
import OvertimeNotice.State.FlagFiles
import OvertimeNotice.State.Connection.Lemmas
import OvertimeNotice.Files.TreeLemmas
import OvertimeNotice.Plan.Planner
import OvertimeNotice.Results
import OvertimeNotice.Export
import OvertimeNotice.Runner
import OvertimeNotice.Main
import OvertimeNotice.Proofs.Ledger.Standing
import OvertimeNotice.Proofs.Ledger.Calls
import OvertimeNotice.Proofs.Ledger.Transparent
import OvertimeNotice.Proofs.Plan.Intake
import OvertimeNotice.Proofs.Plan.Outcome
import OvertimeNotice.Proofs.Plan.Threshold
import OvertimeNotice.Proofs.Plan.Persistence
import OvertimeNotice.Proofs.State.Opening
import OvertimeNotice.Proofs.State.Resting
import OvertimeNotice.Proofs.Files.Directories
import OvertimeNotice.Proofs.Json.RoundTrip
import OvertimeNotice.Proofs.State.MonthFile
import OvertimeNotice.Proofs.Files.Changes
import OvertimeNotice.Proofs.State.FlagStore
import OvertimeNotice.Proofs.Plan.News
import OvertimeNotice.Proofs.Runner.Layout
import OvertimeNotice.Proofs.Runner.Recall
import OvertimeNotice.Proofs.Runner.Archive
import OvertimeNotice.Proofs.Runner.Pass
import OvertimeNotice.Proofs.Runner.Invocation
import OvertimeNotice.Proofs.Runner.Safekeeping
import OvertimeNotice.Proofs.Runner.Course
import OvertimeNotice.Proofs.State.PlainSet
import OvertimeNotice.Proofs.State.DatabaseSet
import OvertimeNotice.Proofs.State.FlagSet
import OvertimeNotice.Proofs.State.Interchange
import OvertimeNotice.Proofs.State.Purging
import OvertimeNotice.Proofs.State.Healing
import OvertimeNotice.Proofs.Ledger.Keeping
import OvertimeNotice.Proofs.Plan.Once
import OvertimeNotice.Proofs.Ledger.Alike
import OvertimeNotice.Proofs.Ledger.Retry
import OvertimeNotice.Proofs.Plan.Apart
import OvertimeNotice.Proofs.Plan.Repeats
import OvertimeNotice.Proofs.Plan.Accepted
import OvertimeNotice.Proofs.Plan.Refusal
import OvertimeNotice.Proofs.Plan.Separate
import OvertimeNotice.Proofs.Plan.Unlisted
import OvertimeNotice.Proofs.Binary64.Rounding
import OvertimeNotice.Proofs.Plan.Switches
import OvertimeNotice.Proofs.Binary64.Shortest
import OvertimeNotice.Proofs.Json.Numerals
import OvertimeNotice.Proofs.Binary64.Error
import OvertimeNotice.Proofs.Json.NumberText
import OvertimeNotice.Proofs.Json.Rereading
import OvertimeNotice.Proofs.Plan.Percent
import OvertimeNotice.Proofs.Json.Compact
import OvertimeNotice.Proofs.Plan.Codec
import OvertimeNotice.Proofs.Plan.Reread
import OvertimeNotice.Proofs.Plan.Readable
import OvertimeNotice.Proofs.Plan.Reached
import OvertimeNotice.Proofs.Plan.Climb
import OvertimeNotice.Proofs.Plan.Rows
import OvertimeNotice.Proofs.Plan.Trail
import OvertimeNotice.Proofs.Plan.Validated
import OvertimeNotice.Proofs.Plan.Addressed
import OvertimeNotice.Proofs.Plan.Warnings
import OvertimeNotice.Proofs.Plan.Figures
import OvertimeNotice.Proofs.Plan.Digest
import OvertimeNotice.Proofs.Plan.Identities
import OvertimeNotice.Proofs.State.HistoryTable
import OvertimeNotice.Proofs.Runner.Archiving
import OvertimeNotice.Proofs.Files.Beside
import OvertimeNotice.Proofs.Export.Rows
import OvertimeNotice.Proofs.Export.Months
import OvertimeNotice.Proofs.Export.Join
import OvertimeNotice.Proofs.Export.Damage
import OvertimeNotice.Proofs.Plan.Comparison
import OvertimeNotice.Proofs.Export.Previous
import OvertimeNotice.Proofs.State.Adding
import OvertimeNotice.Proofs.State.Replacing
import OvertimeNotice.Proofs.State.Outdated
import OvertimeNotice.Proofs.Ledger.Sticking
import OvertimeNotice.Proofs.Runner.Emitted
import OvertimeNotice.Proofs.Plan.Recorded
import OvertimeNotice.Proofs.Runner.Saving
import OvertimeNotice.Proofs.Plan.Weekly
import OvertimeNotice.Proofs.Calendar.MonthGrammar
import OvertimeNotice.Proofs.Runner.MonthKeys
import OvertimeNotice.Proofs.State.MarkKeys
import OvertimeNotice.Proofs.Plan.Dating
