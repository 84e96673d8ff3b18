import OvertimeNotice.Binary64.Basic

/-!
# Shortest decimals

The shortest decimal that reads back as a given binary64 number. The reals that round to the
number form an interval, its ends included when the significand is even. On the decimal grids
with 1, 2, … 17 digits the two neighbours of the number are tried; the first grid with a
neighbour inside the interval wins, and of two such neighbours the nearer, a tie going to the
even one.
-/

namespace OvertimeNotice

/-- The value `digits * 10^exponent`. -/
structure Decimal where
  digits : Nat
  exponent : Int
deriving DecidableEq, Repr, Inhabited

namespace Decimal

/-- How many decimal digits `n` has; none for zero. -/
def digitCount (n : Nat) : Nat := if n = 0 then 0 else (Nat.toDigits 10 n).length

/-- The exponent of the leading decimal digit of `num / den`. -/
def leadingExponent (num den : Nat) : Int :=
  if den ≤ num then (digitCount (num / den) : Int) - 1
  else -(digitCount ((den + num - 1) / num - 1) : Int)

/-- The same value without zeros at the end of its digits. `fuel` bounds their number. -/
def stripZeros : Nat → Decimal → Decimal
  | 0, d => d
  | fuel + 1, d =>
    if d.digits % 10 = 0 ∧ d.digits ≠ 0 then stripZeros fuel ⟨d.digits / 10, d.exponent + 1⟩ else d

end Decimal

namespace Binary64

-- Powers are those of the core library, whatever else is in scope.
attribute [local instance (high)] instPowNat

/-- The interval of a positive finite number and the number itself, in quarters of a unit. -/
structure Interval where
  low : Nat
  value : Nat
  high : Nat
  /-- The ends round to the number too. -/
  closed : Bool

/-- The reals that round to `s * 2^p` units. Below a full significand of the least size the
numbers lie twice as dense. -/
def interval (s p : Nat) : Interval :=
  { low := (if s = 2 ^ (precision - 1) ∧ p ≠ 0 then 4 * s - 1 else 4 * s - 2) * 2 ^ p
    value := 4 * s * 2 ^ p
    high := (4 * s + 2) * 2 ^ p
    closed := s % 2 == 0 }

/-- The point of the grid `10^exponent` for the interval, if one of the number's two neighbours
on the grid lies inside. -/
def Interval.gridPoint? (i : Interval) (exponent : Int) : Option Decimal :=
  let up := 10 ^ (-exponent).toNat
  let step := 4 * unitsPerOne * 10 ^ exponent.toNat
  let below := i.value * up / step
  let above := below + 1
  let inside (d : Nat) : Bool :=
    if i.closed then decide (i.low * up ≤ d * step) && decide (d * step ≤ i.high * up)
    else decide (i.low * up < d * step) && decide (d * step < i.high * up)
  let gapBelow := i.value * up - below * step
  let gapAbove := above * step - i.value * up
  match inside below, inside above with
  | true, true =>
    if gapBelow < gapAbove ∨ (gapBelow = gapAbove ∧ below % 2 = 0) then some ⟨below, exponent⟩
    else some ⟨above, exponent⟩
  | true, false => some ⟨below, exponent⟩
  | false, true => some ⟨above, exponent⟩
  | false, false => none

/-- The shortest decimal that reads back as `s * 2^p` units. -/
def shortest (s p : Nat) : Decimal :=
  if s = 0 then ⟨0, 0⟩
  else
    let i := interval s p
    let lead := Decimal.leadingExponent i.value (4 * unitsPerOne)
    let found := (List.range 17).findSome? fun (n : Nat) => i.gridPoint? (lead - (n : Int))
    Decimal.stripZeros 18 (found.getD ⟨i.value / (4 * unitsPerOne), 0⟩)

end Binary64

end OvertimeNotice
