import OvertimeNotice.ConfigFile
import OvertimeNotice.Export
import OvertimeNotice.Plan.Planner
import OvertimeNotice.Results
import OvertimeNotice.State.Connection.Opening
import OvertimeNotice.State.FlagFiles

/-!
# Running

One invocation of the program: from its arguments and the files it finds to what it prints and the
files it leaves. It ends early where no run is due, and at the first failure; marks of months gone
by are dropped before the rows are fetched, and nothing else is written before the run is planned.
The marks of a plan are written before the plan is printed, so they stay if a stream refuses a line.

* `Console`, `Refusal`: what the standard streams take.
* `Runner.invokeTo`: an invocation on a tree of files, printing to a console; `Runner.invoke`: to
  one that takes everything.
* `Invocation.emitted`, `Invocation.stderr`, `Invocation.exitCode`: what it shows.
-/

namespace OvertimeNotice

/-- What the arguments of the program say. -/
structure Settings where
  dataDir : String
  database : String
  backend : String
  stateDir : String
  cacheDir : String
  /-- The moment to take for now, as given. -/
  now : Option String
deriving DecidableEq, Repr

namespace Settings

/-- The argument after the first `flag` that has one. -/
def argument? (flag : String) : List String → Option String
  | a :: b :: rest => if a = flag then some b else argument? flag (b :: rest)
  | _ => none

def ofArguments (args : List String) : Settings :=
  { dataDir := (argument? "--data-dir" args).getD "./data"
    database := (argument? "--db" args).getD "./overtime_state.db"
    backend := (argument? "--state-backend" args).getD "sqlite"
    stateDir := (argument? "--state-dir" args).getD "./notified_flags"
    cacheDir := (argument? "--cache-dir" args).getD "./cache"
    now := argument? "--now" args }

end Settings

/-- Why an invocation ended early. -/
inductive RunFault where
  | badNow (text : String)
  | load (fault : LoadFault)
  | unknownBackend (name : String)
  | fetch (month : Month) (cause : Failure)
  | failed (cause : Failure)
deriving DecidableEq, Repr

def RunFault.message : RunFault → String
  | badNow s => "--now expects YYYY-MM-DDTHH:MM, got " ++ Text.quoted s
  | load f => f.message
  | unknownBackend s =>
    "unknown --state-backend " ++ Text.quoted s ++ " (expected sqlite or file)"
  | fetch month _ => "fetching overtime for " ++ month.text
  | failed f => f.message

/-- How a standard stream fails: it takes so many lines and refuses the next, for the reason that
the system gives. -/
structure Refusal where
  lines : Nat
  /-- How many characters of the refused line get out all the same, its line break among them. -/
  piece : Nat
  words : String
deriving DecidableEq, Repr

namespace Refusal

/-- The line that is refused, with its line break. -/
def line (r : Refusal) (lines : List String) : String := lines.getD r.lines "" ++ "\n"

/-- How many lines get out whole: the refused one may be among them. -/
def whole (r : Refusal) (lines : List String) : Nat :=
  if (r.line lines).length ≤ r.piece then r.lines + 1 else r.lines

/-- What gets out of the lines. -/
def text (r : Refusal) (lines : List String) : String :=
  String.join ((lines.take r.lines).map (· ++ "\n")) ++
    String.ofList ((r.line lines).toList.take r.piece)

end Refusal

/-- The standard streams, each with the refusal that it has in store, if any. -/
structure Console where
  stdout : Option Refusal
  stderr : Option Refusal
deriving DecidableEq, Repr

/-- Streams that take whatever is written to them. -/
def Console.willing : Console := { stdout := none, stderr := none }

/-- The refusal that a stream comes to when these lines are written to it. -/
def refusalOf (stream : Option Refusal) (lines : List String) : Option Refusal :=
  stream.filter fun r => r.lines < lines.length

/-- How an invocation ended. -/
inductive Invocation where
  /-- No run was due. -/
  | skipped
  | failed (fault : RunFault)
  /-- It was broken off. -/
  | broken (violation : Violation)
  /-- Standard output refused a line of the plan. -/
  | cutOff (report : Report) (refusal : Refusal)
  /-- It was broken off when standard error refused a line: of the summary, or the one on what could
  not be archived of the report. -/
  | silenced (report : Report) (failures : Option (List String)) (refusal : Refusal)
  /-- The report, and what could not be archived of it. -/
  | finished (report : Report) (failures : List String)

namespace Invocation

/-- The end that a failure brings. -/
def ofFailure : Failure → Invocation
  | .violation v => broken v
  | f => failed (.failed f)

/-- The end that a failure of the source brings. -/
def ofFetchFailure (month : Month) : Failure → Invocation
  | .violation v => broken v
  | f => failed (.fetch month f)

def exitCode : Invocation → Nat
  | skipped => 0
  | failed _ => 1
  | broken _ => 101
  | cutOff .. => 1
  | silenced .. => 101
  | finished .. => 0

/-- The report of the run, if it came to one. -/
def report? : Invocation → Option Report
  | cutOff report _ => some report
  | silenced report _ _ => some report
  | finished report _ => some report
  | _ => none

/-- The refusal that ended it, if one did. -/
def refusal? : Invocation → Option Refusal
  | cutOff _ refusal => some refusal
  | silenced _ _ refusal => some refusal
  | _ => none

/-- The lines of a plan, one for each entry. -/
def planLines (r : Report) : List String := r.entries.map fun e => e.toJson.compact

/-- The lines of the plan that got out. -/
def stdout : Invocation → List String
  | cutOff report r => (planLines report).take (r.whole (planLines report))
  | silenced report _ _ => planLines report
  | finished report _ => planLines report
  | _ => []

/-- The plan as it is written: each line with a line break at its end. -/
def emitted : Invocation → String
  | cutOff report r => r.text (planLines report)
  | i => String.join (i.stdout.map (· ++ "\n"))

/-- The line of the summary about a recipient's entries. -/
def digestLine (recipient : String) (entries : List PlanEntry) : String :=
  "  " ++ recipient ++ ": " ++ toString entries.length ++ " | " ++
    ", ".intercalate (entries.map fun e =>
      e.snapshot.name ++ " (" ++ String.ofList e.snapshot.percent.wholeText ++ "%)")

/-- The summary of a report. -/
def summary (r : Report) : List String :=
  let recipients := (digest r.entries).toList
  ["=== RUN SUMMARY ===",
    "  run_id:     " ++ r.runId,
    "  month:      " ++ r.month.text,
    "  mode:       " ++ r.decision.mode.title]
  ++ (match r.decision.reason with
    | some reason => ["  forced by:  " ++ reason.title]
    | none => [])
  ++ ["  evaluated:  " ++ toString r.evaluated.length,
    "  entries:    " ++ toString r.entries.length,
    "  suppressed: " ++ toString r.suppressed.length,
    "  warnings:   " ++ toString r.warnings.length]
  ++ (if recipients.isEmpty then ["  (nobody to notify this run)"] else [])
  ++ recipients.map (fun d => digestLine d.1 d.2)
  ++ r.warnings.map fun w => "  warning: " ++ w.toJson.compact

/-- The summary of a report with the line on what could not be archived of it. -/
def closing (r : Report) (failures : List String) : List String :=
  summary r ++
    (if failures.isEmpty then [] else ["  archive failures: " ++ toString failures.length])

/-- What it says besides, as far as it is taken. -/
def stderr : Invocation → List String
  | skipped => []
  | failed f => ["Error: " ++ f.message]
  | broken v => ["", v.message]
  | cutOff _ r => ["Error: " ++ r.words]
  | silenced report failures r =>
    let lines := closing report (failures.getD [])
    lines.take (r.whole lines) ++ ["", "failed printing to stderr: " ++ r.words]
  | finished report failures => closing report failures

end Invocation

/-- Flag files as a backend. -/
def World.flagBackend (s : FlagFiles) : Backend World :=
  (Backend.flagFiles s).within World.files fun t w => { w with files := t }

namespace Runner

/-- The version that runs are recorded under. -/
def version : String := "0.1.0"

/-- Two hexadecimal digits. -/
def hexByte (n : Nat) : List Char := [Nat.digitChar (n / 16 % 16), Nat.digitChar (n % 16)]

/-- The identifier of a run from sixteen random bytes: a random UUID, after `run-`. -/
def runId (bytes : List Nat) : String :=
  let marked := bytes.mapIdx fun i b =>
    if i = 6 then 0x40 + b % 16 else if i = 8 then 0x80 + b % 64 else b
  String.ofList ("run-".toList ++ (marked.mapIdx fun i b =>
    (if i = 4 ∨ i = 6 ∨ i = 8 ∨ i = 10 then ['-'] else []) ++ hexByte b).flatten)

/-- What follows on a report: its plan goes out, and then the summary, before it is archived. -/
def conclude (o : Console) (report : Report) (cacheDir recordedAt : String) (w : World) :
    Invocation × World :=
  match refusalOf o.stdout (Invocation.planLines report) with
  | some r => (.cutOff report r, w)
  | none =>
    match refusalOf o.stderr (Invocation.summary report) with
    | some r => (.silenced report none r, w)
    | none =>
      let a := World.archive report cacheDir recordedAt w
      match refusalOf o.stderr (Invocation.closing report a.1) with
      | some r => (.silenced report (some a.1) r, a.2)
      | none => (.finished report a.1, a.2)

/-- The run in a ledger's month, once its rows are there. -/
def plan (o : Console) (b : Backend World) (c : Config) (s : Settings) (now : Moment)
    (runId : String) (decision : RunDecision) (rows : List RawRow) (l : Ledger World) :
    Invocation × World :=
  let row : RunRow :=
    { id := runId, month := now.toMonth.text, mode := decision.mode.name, startedAt := now.text
      version }
  match World.call (World.update fun d => d.insertRun row) l.store with
  | (.error f, w) => (.ofFailure f, w)
  | (.ok (), w) =>
    match Planner.run b c runId now decision rows { l with store := w } with
    | (.error f, l) => (.ofFailure f, l.store)
    | (.ok report, l) => conclude o report s.cacheDir now.minuteText l.store

/-- The run over a backend: old marks go, rows come, the run is planned. -/
def pass (o : Console) (b : Backend World) (c : Config) (s : Settings) (now : Moment)
    (runId : String) (decision : RunDecision) (w : World) : Invocation × World :=
  let l := ((Ledger.fresh w).reset b now.toMonth).2
  match Export.fetch s.dataDir now.toMonth l.store.files with
  | .error f => (.ofFetchFailure now.toMonth f, l.store)
  | .ok rows => plan o b c s now runId decision rows l

/-- The run with the backend that the settings name. -/
def withBackend (o : Console) (c : Config) (s : Settings) (now : Moment) (runId : String)
    (decision : RunDecision) (w : World) : Invocation × World :=
  if s.backend = "sqlite" then pass o World.backend c s now runId decision w
  else if s.backend = "file" then
    let store : FlagFiles := { dir := s.stateDir }
    match store.setUp w.files with
    | (.error f, t) => (.failed (.failed (.file f)), { w with files := t })
    | (.ok (), t) => pass o (World.flagBackend store) c s now runId decision { w with files := t }
  else (.failed (.unknownBackend s.backend), w)

/-- The run that is due, on its database, which is closed whatever happens. -/
def withDatabase (o : Console) (c : Config) (s : Settings) (now : Moment) (runId : String)
    (decision : RunDecision) (t : Tree) : Invocation × Tree :=
  match World.connect? t s.database with
  | .error f => (.failed (.failed (.database f)), t)
  | .ok w =>
    match World.call World.migrate w with
    | (.error f, w) => (.ofFailure f, w.close)
    | (.ok (), w) =>
      let r := withBackend o c s now runId decision w
      (r.1, r.2.close)

/-- An invocation at a moment. -/
def invokeAt (o : Console) (s : Settings) (now : Moment) (runId : String) (t : Tree) :
    Invocation × Tree :=
  match Config.load s.dataDir t with
  | .error f => (.failed (.load f), t)
  | .ok c =>
    match decideRun now c with
    | .error v => (.broken v, t)
    | .ok decision =>
      if !decision.isForced && isSkipDay now.date c then (.skipped, t)
      else withDatabase o c s now runId decision t

/-- An invocation; `clock` is the moment if the settings give none. -/
def invokeTo (o : Console) (s : Settings) (clock : Moment) (runId : String) (t : Tree) :
    Invocation × Tree :=
  match s.now with
  | none => invokeAt o s clock runId t
  | some text =>
    match Moment.parse? text with
    | none => (.failed (.badNow text), t)
    | some now => invokeAt o s now runId t

/-- An invocation whose streams take whatever it prints. -/
def invoke (s : Settings) (clock : Moment) (runId : String) (t : Tree) : Invocation × Tree :=
  invokeTo .willing s clock runId t

end Runner

end OvertimeNotice
