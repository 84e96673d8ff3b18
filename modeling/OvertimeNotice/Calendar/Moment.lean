import OvertimeNotice.Calendar.Date

/-!
# Moments

A date with a time of day, as a run is told it: `YYYY-MM-DDTHH:MM` with or without seconds.
-/

namespace OvertimeNotice

/-- A time of a day. A leap second is second 60. -/
structure Moment where
  date : Date
  hour : Nat
  minute : Nat
  second : Nat
  hour_le : hour ≤ 23
  minute_le : minute ≤ 59
  second_le : second ≤ 60
deriving DecidableEq, Repr

namespace Moment

def of? (date : Date) (hour minute second : Nat) : Option Moment :=
  if h : hour ≤ 23 ∧ minute ≤ 59 ∧ second ≤ 60 then
    some ⟨date, hour, minute, second, h.1, h.2.1, h.2.2⟩
  else none

/-- The month that the moment falls in. -/
def toMonth (t : Moment) : Month := t.date.toMonth

/-- Minutes since midnight. -/
def minuteOfDay (t : Moment) : Nat := t.hour * 60 + t.minute

/-- The end of a time: nothing, or seconds where they are asked for. -/
def seconds? (asked : Bool) (cs : List Char) : Option Nat :=
  if asked then do
    let rest ← DateText.mark? ':' cs
    let (second, rest) ← DateText.two? rest
    if rest = [] then some second else none
  else if cs = [] then some 0 else none

/-- The moment of a text with or without seconds. -/
def read? (withSeconds : Bool) (s : String) : Option Moment := do
  let (year, rest) ← DateText.year? s.toList
  let rest ← DateText.mark? '-' rest
  let (month, rest) ← DateText.two? rest
  let rest ← DateText.mark? '-' rest
  let (day, rest) ← DateText.two? rest
  let rest ← DateText.mark? 'T' rest
  let (hour, rest) ← DateText.two? rest
  let rest ← DateText.mark? ':' rest
  let (minute, rest) ← DateText.two? rest
  let second ← seconds? withSeconds rest
  let date ← Date.of? year month day
  of? date hour minute second

/-- The moment of a text. -/
def parse? (s : String) : Option Moment := (read? false s).or (read? true s)

/-- The text `YYYY-MM-DD HH:MM`. -/
def minuteText (t : Moment) : String :=
  String.ofList (t.date.textChars ++ ' ' :: Numeral.padded 2 t.hour ++ ':' ::
    Numeral.padded 2 t.minute)

/-- The text `YYYY-MM-DD HH:MM:SS`. -/
def text (t : Moment) : String :=
  t.minuteText ++ String.ofList (':' :: Numeral.padded 2 t.second)

end Moment

end OvertimeNotice
