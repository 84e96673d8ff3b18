import OvertimeNotice.Binary64.Whole
import OvertimeNotice.Json.Record

/-!
# Severity

How far a month's overtime has come towards its ceiling: the percentage, and the highest of five
steps that it has reached. A step is reached at exactly its percentage.
-/

namespace OvertimeNotice

/-- The highest step reached. -/
inductive Severity where
  | none
  | p60
  | p70
  | p80
  | p90
  | p100
deriving DecidableEq, Repr, Inhabited

/-- A call that its caller must not make. -/
inductive Violation where
  /-- A sum left the range of its type. -/
  | sumRange
  /-- A product left the range of its type. -/
  | productRange
  /-- An evaluation without a ceiling. -/
  | noCeiling
  | monthRange (number : Nat)
deriving DecidableEq, Repr

def Violation.message : Violation → String
  | sumRange => "attempt to add with overflow"
  | productRange => "attempt to multiply with overflow"
  | noCeiling => "ceiling must be resolved and positive"
  | monthRange n => "month out of range: " ++ toString n

namespace Severity

/-- The steps, highest first. -/
def steps : List Severity := [p100, p90, p80, p70, p60]

/-- The percentage of a step. -/
def percent? : Severity → Option Nat
  | none => Option.none
  | p60 => some 60
  | p70 => some 70
  | p80 => some 80
  | p90 => some 90
  | p100 => some 100

/-- Place in the order of severities. -/
def rank : Severity → Nat
  | none => 0
  | p60 => 1
  | p70 => 2
  | p80 => 3
  | p90 => 4
  | p100 => 5

instance : LT Severity := ⟨fun a b => a.rank < b.rank⟩

instance : LE Severity := ⟨fun a b => a.rank ≤ b.rank⟩

instance (a b : Severity) : Decidable (a < b) := inferInstanceAs (Decidable (a.rank < b.rank))

instance (a b : Severity) : Decidable (a ≤ b) := inferInstanceAs (Decidable (a.rank ≤ b.rank))

/-- The percentage has reached the step. -/
def reachedBy (s : Severity) (percent : Binary64) : Bool :=
  match s.percent? with
  | Option.none => true
  | some p => (Binary64.ofNat p).le percent

/-- The highest step that a percentage has reached. -/
def ofPercent (percent : Binary64) : Severity :=
  (steps.find? fun s => s.reachedBy percent).getD none

/-- The step with a percentage. -/
def ofStep? (percent : Nat) : Option Severity := steps.find? fun s => s.percent? == some percent

/-- A step that is reported. -/
def isNotifiable (s : Severity) : Bool := s != none

/-- The severity in words. -/
def text (s : Severity) : String :=
  match s.percent? with
  | Option.none => "none"
  | some p => toString p ++ "%"

def table : List (String × Severity) :=
  [("none", none), ("60", p60), ("70", p70), ("80", p80), ("90", p90), ("100", p100)]

def name : Severity → String
  | none => "none"
  | p60 => "60"
  | p70 => "70"
  | p80 => "80"
  | p90 => "90"
  | p100 => "100"

def toJson (s : Severity) : Json := .string s.name

def ofJson? (w : Json.Within) (j : Json) : Option Severity := j.choice? table w

end Severity

/-- A percentage of a ceiling and the step it has reached. -/
structure Evaluation where
  percent : Binary64
  severity : Severity
deriving DecidableEq, Repr, Inhabited

/-- `part / whole` in percent: the product with 100, then the quotient, each rounded. -/
def percentOf (part whole : UInt32) : Binary64 :=
  ((Binary64.ofNat part.toNat).mul (Binary64.ofNat 100)).div (Binary64.ofNat whole.toNat)

/-- The evaluation of a month's minutes against a ceiling. -/
def evaluate (minutes ceiling : UInt32) : Except Violation Evaluation :=
  if ceiling = 0 then .error .noCeiling
  else
    let percent := percentOf minutes ceiling
    .ok { percent, severity := Severity.ofPercent percent }

/-- `part / whole` in percent as a whole number, a half going up; zero of nothing. -/
def roundedPercent (part whole : UInt32) : UInt32 :=
  if whole = 0 then 0
  else UInt32.ofNat ((percentOf part whole).toNatHalfUp 4294967295)

namespace Evaluation

def toJson (e : Evaluation) : Json :=
  .object [("percent", .real e.percent), ("severity", e.severity.toJson)]

def ofJson? (w : Json.Within) (j : Json) : Option Evaluation := do
  let fs ← j.fields? ["percent", "severity"]
  return {
    percent := ← fs.required "percent" Json.binary64?
    severity := ← fs.required "severity" (Severity.ofJson? w) }

end Evaluation

end OvertimeNotice
