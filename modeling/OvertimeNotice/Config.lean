import OvertimeNotice.Calendar.Date
import OvertimeNotice.Failure

/-!
# Configuration

What a run is told beforehand: ceilings, recipients, who may be told about themselves, the weekly
window and the days off.

* `Config.validate`: the checks, of which the first that fails is reported.
* `Config.ceilingFor`: a department's own ceiling comes before the default one.
-/

namespace OvertimeNotice

/-- Who may receive their own figures. -/
structure SelfNotify where
  enabled : Bool
  /-- The employees who may; nobody if it is empty. -/
  allowlist : TextSet
  /-- The percentage from which an employee is told directly, on the list or not. -/
  threshold : Binary64
deriving DecidableEq

/-- The weekly slot of the report on everyone. -/
structure ForceWindow where
  /-- Monday is 0. -/
  weekday : UInt32
  hour : UInt32
  minute : UInt32
  tolerance : UInt32
deriving DecidableEq, Repr

/-- Switches for trying things out. -/
structure DebugOverrides where
  forceAlways : Bool
  /-- Take the window as open. -/
  bypassWindow : Bool
deriving DecidableEq, Repr

structure Config where
  defaultCeiling : Option UInt32
  ceilings : TextMap UInt32
  /-- Identities by department, or under `everyDepartment`. -/
  recipients : TextMap (List String)
  selfNotify : SelfNotify
  window : Option ForceWindow
  debug : DebugOverrides
  holidays : List Date
deriving DecidableEq

/-- The key of recipients for every department. -/
def everyDepartment : String := "ALL"

def SelfNotify.default : SelfNotify :=
  { enabled := false, allowlist := TextSet.empty, threshold := Binary64.ofNat 90 }

def DebugOverrides.default : DebugOverrides := { forceAlways := false, bypassWindow := false }

namespace ForceWindow

/-- The slot names a day of a week and a time of a day. -/
def validate (w : ForceWindow) : Except ConfigFault Unit :=
  if 6 < w.weekday then .error (.weekday w.weekday)
  else if 23 < w.hour ∨ 59 < w.minute then .error (.timeOfDay w.hour w.minute)
  else .ok ()

end ForceWindow

namespace Config

/-- A configuration for trials. -/
def sample : Config :=
  { defaultCeiling := some 900
    ceilings := TextMap.ofList [("300", 600), ("400", 1200)]
    recipients := TextMap.ofList [("300", ["lead300@example.com"]),
      ("400", ["lead400@example.com"]), (everyDepartment, ["hr@example.com"])]
    selfNotify :=
      { enabled := true, allowlist := TextSet.ofList ["1001"], threshold := Binary64.ofNat 95 }
    window := some { weekday := 4, hour := 21, minute := 30, tolerance := 5 }
    debug := DebugOverrides.default
    holidays := [] }

/-- The ceiling of a department; none if there is no default either. -/
def ceilingFor (c : Config) (department : String) : Option UInt32 :=
  (c.ceilings.find? department).or c.defaultCeiling

/-- A department whose own ceiling is zero. -/
def zeroCeiling? (c : Config) : Option String :=
  (c.ceilings.toList.find? fun e => e.2 == 0).map (·.1)

def validate (c : Config) : Except ConfigFault Unit :=
  if c.defaultCeiling = some 0 then .error .zeroDefaultCeiling
  else
    match c.zeroCeiling? with
    | some d => .error (.zeroDepartmentCeiling d)
    | none =>
      match (c.window.map ForceWindow.validate).getD (.ok ()) with
      | .error e => .error e
      | .ok () =>
        if c.selfNotify.threshold.isFinite && Binary64.zero.lt c.selfNotify.threshold then .ok ()
        else .error .threshold

def isHoliday (c : Config) (d : Date) : Bool := c.holidays.contains d

end Config

/-! ## JSON -/

namespace SelfNotify

def toJson (s : SelfNotify) : Json :=
  .object [("enabled", .bool s.enabled), ("allowlist", .texts s.allowlist.toList),
    ("force_threshold_percent", .real s.threshold)]

def ofJson? (j : Json) : Option SelfNotify := do
  let fs ← j.fields? ["enabled", "allowlist", "force_threshold_percent"]
  return {
    enabled := ← fs.withDefault "enabled" default.enabled Json.bool?
    allowlist := ← fs.withDefault "allowlist" default.allowlist Json.textSet?
    threshold :=
      ← fs.withDefault "force_threshold_percent" default.threshold Json.binary64? }

end SelfNotify

namespace ForceWindow

def toJson (w : ForceWindow) : Json :=
  .object [("weekday", .nat w.weekday.toNat), ("hour", .nat w.hour.toNat),
    ("minute", .nat w.minute.toNat), ("tolerance_minutes", .nat w.tolerance.toNat)]

def ofJson? (j : Json) : Option ForceWindow := do
  let fs ← j.fields? ["weekday", "hour", "minute", "tolerance_minutes"]
  return {
    weekday := ← fs.required "weekday" Json.word?
    hour := ← fs.required "hour" Json.word?
    minute := ← fs.required "minute" Json.word?
    tolerance := ← fs.required "tolerance_minutes" Json.word? }

end ForceWindow

namespace DebugOverrides

def toJson (d : DebugOverrides) : Json :=
  .object [("force_always", .bool d.forceAlways), ("bypass_window", .bool d.bypassWindow)]

def ofJson? (j : Json) : Option DebugOverrides := do
  let fs ← j.fields? ["force_always", "bypass_window"]
  return {
    forceAlways := ← fs.withDefault "force_always" default.forceAlways Json.bool?
    bypassWindow := ← fs.withDefault "bypass_window" default.bypassWindow Json.bool? }

end DebugOverrides

namespace Config

def toJson (c : Config) : Json :=
  .object [
    ("default_ceiling_minutes", .nullable (fun n => .nat n.toNat) c.defaultCeiling),
    ("department_ceilings", .object (c.ceilings.toList.map fun e => (e.1, .nat e.2.toNat))),
    ("recipients", .object (c.recipients.toList.map fun e => (e.1, .texts e.2))),
    ("self_notify", c.selfNotify.toJson),
    ("force_window", .nullable ForceWindow.toJson c.window),
    ("debug", c.debug.toJson),
    ("holidays", .array (c.holidays.map Date.toJson))]

def ofJson? (j : Json) : Option Config := do
  let fs ← j.fields? ["default_ceiling_minutes", "department_ceilings", "recipients",
    "self_notify", "force_window", "debug", "holidays"]
  return {
    defaultCeiling := ← fs.withDefault "default_ceiling_minutes" none (Json.orNull? Json.word?)
    ceilings := ← fs.withDefault "department_ceilings" TextMap.empty (Json.textMap? Json.word?)
    recipients :=
      ← fs.withDefault "recipients" TextMap.empty (Json.textMap? (Json.list? Json.text?))
    selfNotify := ← fs.withDefault "self_notify" SelfNotify.default SelfNotify.ofJson?
    window := ← fs.withDefault "force_window" none (Json.orNull? ForceWindow.ofJson?)
    debug := ← fs.withDefault "debug" DebugOverrides.default DebugOverrides.ofJson?
    holidays := ← fs.withDefault "holidays" [] (Json.list? Date.ofJson?) }

end Config

end OvertimeNotice
