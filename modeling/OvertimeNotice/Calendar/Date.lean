import OvertimeNotice.Text.Blank
import OvertimeNotice.Text.Numeral
import OvertimeNotice.Calendar.Month

/-!
# Dates

Days of the proleptic Gregorian calendar, the day of the week they fall on, and their text. In
years outside 0 to 9999 the text carries a sign. Reading is laxer than writing: blank characters
may stand before a number, before a hyphen and at the end, and month and day may have a single
digit.
-/

namespace OvertimeNotice

namespace Calendar

-- Sums start from the zero of the core library, whatever else is in scope.
attribute [local instance (high)] Zero.ofOfNat0

def isLeap (year : Int) : Bool :=
  decide (year % 4 = 0) && (decide (year % 100 ≠ 0) || decide (year % 400 = 0))

/-- The days of a month. -/
def daysIn (year : Int) (month : Nat) : Nat :=
  if month = 2 then (if isLeap year then 29 else 28)
  else if month = 4 ∨ month = 6 ∨ month = 9 ∨ month = 11 then 30 else 31

/-- The days of a year before a month. -/
def daysBefore (year : Int) (month : Nat) : Nat :=
  ((List.range (month - 1)).map fun i => daysIn year (i + 1)).sum

/-- The years that a date may have. -/
def firstYear : Int := -262143

def lastYear : Int := 262142

end Calendar

open Calendar

/-- A day that exists. -/
structure Date where
  year : Int
  month : Nat
  day : Nat
  year_range : firstYear ≤ year ∧ year ≤ lastYear
  month_range : 1 ≤ month ∧ month ≤ 12
  day_range : 1 ≤ day ∧ day ≤ daysIn year month
deriving DecidableEq, Repr

namespace Date

def of? (year : Int) (month day : Nat) : Option Date :=
  if h : (firstYear ≤ year ∧ year ≤ lastYear) ∧ (1 ≤ month ∧ month ≤ 12) ∧
      (1 ≤ day ∧ day ≤ daysIn year month) then
    some ⟨year, month, day, h.1, h.2.1, h.2.2⟩
  else none

/-- Days counted from the last one before year one. -/
def dayNumber (d : Date) : Int :=
  let y := d.year - 1
  365 * y + y / 4 - y / 100 + y / 400 + daysBefore d.year d.month + d.day

/-- The day of the week, Monday as 0; the first day of year one was a Monday. -/
def weekday (d : Date) : Nat := ((d.dayNumber - 1) % 7).toNat

def isWeekend (d : Date) : Bool := decide (5 ≤ d.weekday)

def toMonth (d : Date) : Month := ⟨d.year, d.month, d.month_range.1, d.month_range.2⟩

/-! ## Texts -/

/-- Four digits or more; outside 0 to 9999 with a sign. -/
def yearChars (year : Int) : List Char :=
  if 0 ≤ year ∧ year ≤ 9999 then Numeral.padded 4 year.toNat
  else (if year < 0 then '-' else '+') :: Numeral.padded 4 year.natAbs

def textChars (d : Date) : List Char :=
  yearChars d.year ++ '-' :: Numeral.padded 2 d.month ++ '-' :: Numeral.padded 2 d.day

/-- The text `YYYY-MM-DD`. -/
def text (d : Date) : String := String.ofList d.textChars

end Date

/-! ## Reading numbers in dates -/

namespace DateText

/-- One to `most` digits at the front, and what follows them. -/
def digits? (most : Nat) (cs : List Char) : Option (Nat × List Char) :=
  let ds := (cs.take most).takeWhile Char.isDigit
  if ds = [] then none else some (Numeral.ofDigits ds, cs.drop ds.length)

/-- A year: four digits at most or, after a sign, any number of them. -/
def year? (cs : List Char) : Option (Int × List Char) :=
  match Text.dropBlanks cs with
  | '-' :: rest => (digits? rest.length rest).map fun r => (-(r.1 : Int), r.2)
  | '+' :: rest => (digits? rest.length rest).map fun r => ((r.1 : Int), r.2)
  | rest => (digits? 4 rest).map fun r => ((r.1 : Int), r.2)

/-- A number of two digits at most. -/
def two? (cs : List Char) : Option (Nat × List Char) := digits? 2 (Text.dropBlanks cs)

/-- What follows the character `c` at the front. -/
def mark? (c : Char) (cs : List Char) : Option (List Char) :=
  match cs with
  | d :: rest => if d = c then some rest else none
  | [] => none

end DateText

open DateText

namespace Date

/-- The date of a text, blank characters allowed before its numbers and hyphens and at its end. -/
def parse? (s : String) : Option Date := do
  let (year, rest) ← year? s.toList
  let rest ← mark? '-' (Text.dropBlanks rest)
  let (month, rest) ← two? rest
  let rest ← mark? '-' (Text.dropBlanks rest)
  let (day, rest) ← two? rest
  if Text.dropBlanks rest = [] then of? year month day else none

def toJson (d : Date) : Json := .string d.text

def ofJson? (j : Json) : Option Date := j.text?.bind parse?

end Date

end OvertimeNotice
