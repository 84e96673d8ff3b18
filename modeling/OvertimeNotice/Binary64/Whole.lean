import OvertimeNotice.Binary64.Basic

/-!
# Whole numbers near a binary64 number

Two roundings of a magnitude to a whole number, which differ in where an exact half goes: away
from zero, or to the even neighbour.
-/

namespace OvertimeNotice

namespace Binary64

-- Powers are those of the core library, whatever else is in scope.
attribute [local instance (high)] instPowNat

/-- The whole number nearest to `num / den`; of two equally near the larger one. -/
def roundHalfUp (num den : Nat) : Nat := (2 * num + den) / (2 * den)

/-- The nearest whole number, a half going up, no more than `limit` and no less than zero. -/
def toNatHalfUp (limit : Nat) (x : Binary64) : Nat :=
  match x with
  | nan => 0
  | infinite n => if n then 0 else limit
  | finite n s p => if n then 0 else min limit (roundHalfUp (s * 2 ^ p) unitsPerOne)

/-- The nearest whole number with its sign, a half going to the even neighbour, as digits. -/
def wholeText (x : Binary64) : List Char :=
  match x with
  | nan => "NaN".toList
  | infinite n => (if n then "-inf" else "inf").toList
  | finite n s p =>
    (if n then ['-'] else []) ++ Nat.toDigits 10 (roundTiesEven (s * 2 ^ p) unitsPerOne)

end Binary64

end OvertimeNotice
