import OvertimeNotice.Text.Numeral
import OvertimeNotice.Text.Quoted
import OvertimeNotice.Json.Record

/-!
# Calendar months

A month of the proleptic Gregorian calendar, its order, and its two texts: `YYYY-MM` and, without
the hyphen, `YYYYMM`. The width of the year counts its sign. Reading takes the text apart at the
first hyphen, so a year with a minus sign does not read back.
-/

namespace OvertimeNotice

/-- A month of a year, which may be zero or negative. -/
structure Month where
  year : Int
  number : Nat
  number_pos : 1 ≤ number
  number_le : number ≤ 12
deriving DecidableEq, Repr

/-- Why a text is no month. -/
inductive MonthFault where
  | noHyphen (text : String)
  | badYear (text : String)
  | badNumber (text : String)
  | outOfRange (text : String)
deriving DecidableEq, Repr

def MonthFault.message : MonthFault → String
  | noHyphen s => "expected YYYY-MM, got " ++ Text.quoted s
  | badYear s => "bad year in " ++ Text.quoted s
  | badNumber s => "bad month in " ++ Text.quoted s
  | outOfRange s => "month out of range in " ++ Text.quoted s

namespace Month

/-- The month with a number, if it lies within a year. -/
def of? (year : Int) (number : Nat) : Option Month :=
  if h : 1 ≤ number ∧ number ≤ 12 then some ⟨year, number, h.1, h.2⟩ else none

instance : Inhabited Month := ⟨⟨1, 1, by decide, by decide⟩⟩

/-- Months counted from the first one of year zero. -/
def index (m : Month) : Int := m.year * 12 + m.number - 1

instance : LT Month := ⟨fun a b => a.index < b.index⟩

instance : LE Month := ⟨fun a b => a.index ≤ b.index⟩

instance (a b : Month) : Decidable (a < b) := inferInstanceAs (Decidable (a.index < b.index))

instance (a b : Month) : Decidable (a ≤ b) := inferInstanceAs (Decidable (a.index ≤ b.index))

/-- The month before. -/
def previous (m : Month) : Month :=
  if h : m.number = 1 then ⟨m.year - 1, 12, by decide, by decide⟩
  else ⟨m.year, m.number - 1, by have := m.number_pos; omega, by have := m.number_le; omega⟩

/-! ## Texts -/

def textChars (m : Month) : List Char :=
  Numeral.paddedInt 4 m.year ++ '-' :: Numeral.padded 2 m.number

/-- The text `YYYY-MM`. -/
def text (m : Month) : String := String.ofList m.textChars

/-- The text `YYYYMM`. -/
def compact (m : Month) : String :=
  String.ofList (Numeral.paddedInt 4 m.year ++ Numeral.padded 2 m.number)

/-- The month of a text `YYYY-MM`. Either number may start with a plus sign and with zeros. -/
def parse (s : String) : Except MonthFault Month :=
  match s.toList.dropWhile (· ≠ '-') with
  | [] => .error (.noHyphen s)
  | _ :: numberChars =>
    match Numeral.read? Numeral.max31 (s.toList.takeWhile (· ≠ '-')) with
    | none => .error (.badYear s)
    | some year =>
      match Numeral.read? Numeral.max32 numberChars with
      | none => .error (.badNumber s)
      | some number =>
        match of? year number with
        | none => .error (.outOfRange s)
        | some m => .ok m

def toJson (m : Month) : Json := .string m.text

def ofJson? (j : Json) : Option Month := j.text?.bind fun s => (parse s).toOption

/-! ## Order -/

theorem index_injective {a b : Month} (h : a.index = b.index) : a = b := by
  obtain ⟨ya, na, h₁, h₂⟩ := a
  obtain ⟨yb, nb, h₃, h₄⟩ := b
  simp only [index] at h
  obtain rfl : ya = yb := by omega
  obtain rfl : na = nb := by omega
  rfl

theorem index_previous (m : Month) : m.previous.index = m.index - 1 := by
  have := m.number_pos
  unfold previous
  split <;> simp only [index] <;> omega

end Month

end OvertimeNotice
