import OvertimeNotice.Calendar.Moment
import OvertimeNotice.Config

/-!
# Which run is due

Once a week a run reports on everyone; any other run reports the steps newly reached. The time is
compared by the minute.

* `inWindow`: the weekday matches and the minute lies within the tolerance, both ends included.
* `decide`: overrides come before the window.
-/

namespace OvertimeNotice

-- Powers are those of the core library, whatever else is in scope.
attribute [local instance (high)] instPowNat

/-- What a run reports. -/
inductive RunMode where
  /-- The steps newly reached. -/
  | threshold
  /-- Everyone, whatever was sent before. -/
  | forced
deriving DecidableEq, Repr, Inhabited

/-- Why a run reports on everyone. -/
inductive ForceReason where
  | window
  | bypassWindow
  | forceAlways
deriving DecidableEq, Repr

structure RunDecision where
  mode : RunMode
  reason : Option ForceReason
deriving DecidableEq, Repr

/-- The minute of the day at the middle of the window, within 32 bits. -/
def ForceWindow.target (w : ForceWindow) : Except Violation Nat :=
  let hours := w.hour.toNat * 60
  if 2 ^ (32 : Nat) ≤ hours then .error .productRange
  else if 2 ^ (32 : Nat) ≤ hours + w.minute.toNat then .error .sumRange
  else .ok (hours + w.minute.toNat)

/-- The window is open. It does not reach into the next day. -/
def inWindow (now : Moment) (w : ForceWindow) : Except Violation Bool :=
  if now.date.weekday ≠ w.weekday.toNat then .ok false
  else w.target.map fun t => decide ((now.minuteOfDay - t : Int).natAbs ≤ w.tolerance.toNat)

/-- Why the run reports on everyone, if it does. -/
def forceReason? (now : Moment) (window : Option ForceWindow) (debug : DebugOverrides) :
    Except Violation (Option ForceReason) :=
  if debug.forceAlways then .ok (some .forceAlways)
  else if debug.bypassWindow then .ok (some .bypassWindow)
  else
    match window with
    | none => .ok none
    | some w => (inWindow now w).map fun isOpen => if isOpen then some .window else none

namespace RunDecision

def threshold : RunDecision := { mode := .threshold, reason := none }

def forced (reason : ForceReason) : RunDecision := { mode := .forced, reason := some reason }

def isForced (d : RunDecision) : Bool := d.mode == .forced

end RunDecision

/-- The run that is due at a moment. -/
def decideRun (now : Moment) (c : Config) : Except Violation RunDecision :=
  (forceReason? now c.window c.debug).map fun r =>
    match r with
    | some reason => .forced reason
    | none => .threshold

/-- A day on which no run is due unless it reports on everyone. -/
def isSkipDay (d : Date) (c : Config) : Bool := d.isWeekend || c.isHoliday d

/-! ## JSON -/

namespace RunMode

def table : List (String × RunMode) := [("threshold", threshold), ("forced", forced)]

def name : RunMode → String
  | threshold => "threshold"
  | forced => "forced"

/-- The mode as a heading. -/
def title : RunMode → String
  | threshold => "Threshold"
  | forced => "Forced"

def toJson (m : RunMode) : Json := .string m.name

def ofJson? (w : Json.Within) (j : Json) : Option RunMode := j.choice? table w

end RunMode

namespace ForceReason

def table : List (String × ForceReason) :=
  [("window", window), ("bypass_window", bypassWindow), ("force_always", forceAlways)]

def name : ForceReason → String
  | window => "window"
  | bypassWindow => "bypass_window"
  | forceAlways => "force_always"

/-- The reason as a heading. -/
def title : ForceReason → String
  | window => "Window"
  | bypassWindow => "BypassWindow"
  | forceAlways => "ForceAlways"

def toJson (r : ForceReason) : Json := .string r.name

def ofJson? (w : Json.Within) (j : Json) : Option ForceReason := j.choice? table w

end ForceReason

namespace RunDecision

def toJson (d : RunDecision) : Json :=
  .object [("mode", d.mode.toJson), ("reason", .nullable ForceReason.toJson d.reason)]

def ofJson? (w : Json.Within) (j : Json) : Option RunDecision := do
  let fs ← j.fields? ["mode", "reason"]
  return {
    mode := ← fs.required "mode" (RunMode.ofJson? w)
    reason := ← fs.optional "reason" (ForceReason.ofJson? w) }

end RunDecision

end OvertimeNotice
