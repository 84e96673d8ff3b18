/-!
# Binary64 numbers

The numbers of the IEEE-754 format binary64, each with its exact value. A finite number is a whole
number of units of `2^-1074`, the smallest positive one; every operation computes the exact result
in those units and rounds it once, to the nearest number, a tie going to the even significand.

* `ofBits`: the number that a 64-bit pattern stands for.
-/

namespace OvertimeNotice

/-- A binary64 number. The value of `finite n s p` is `s * 2^p` units, negated if `n`. -/
inductive Binary64 where
  | nan
  | infinite (negative : Bool)
  | finite (negative : Bool) (significand power : Nat)
deriving DecidableEq, Repr, Inhabited

/-- The whole number nearest to `num / den`; of two equally near the even one. -/
def roundTiesEven (num den : Nat) : Nat :=
  let q := num / den
  let r := 2 * (num % den)
  if r < den ∨ (r = den ∧ q % 2 = 0) then q else q + 1

namespace Binary64

-- Powers are those of the core library, whatever else is in scope.
attribute [local instance (high)] instPowNat

/-- Bits of a full significand. -/
def precision : Nat := 53

/-- Units in one. -/
def unitsPerOne : Nat := 2 ^ (1074 : Nat)

/-- The largest power of a finite number. -/
def maxPower : Nat := 2045

/-- A finite number in its one written form: a full significand, or the power zero. -/
def Canonical : Binary64 → Prop
  | finite _ s p => s < 2 ^ precision ∧ p ≤ maxPower ∧ (p = 0 ∨ 2 ^ (precision - 1) ≤ s)
  | _ => True

def isFinite : Binary64 → Bool
  | finite .. => true
  | _ => false

def isZero : Binary64 → Bool
  | finite _ s _ => s == 0
  | _ => false

/-- The exact value in units, for a finite number; zero for the others. -/
def units : Binary64 → Int
  | finite false s p => s * 2 ^ p
  | finite true s p => -(s * 2 ^ p)
  | _ => 0

/-- The magnitude in units. -/
def magnitude : Binary64 → Nat
  | finite _ s p => s * 2 ^ p
  | _ => 0

def isNegative : Binary64 → Bool
  | finite n .. => n
  | infinite n => n
  | nan => false

def zero : Binary64 := finite false 0 0

/-- The power under which `n` units have a significand of at most 53 bits. -/
def powerOf (n : Nat) : Nat := n.log2 + 1 - precision

/-- The binary64 number nearest to `num / den` units. -/
def ofUnits (negative : Bool) (num den : Nat) : Binary64 :=
  let p := powerOf (num / den)
  let s := roundTiesEven num (den * 2 ^ p)
  if s = 2 ^ precision then
    if p + 1 ≤ maxPower then finite negative (2 ^ (precision - 1)) (p + 1) else infinite negative
  else if p ≤ maxPower then finite negative s p else infinite negative

/-- The binary64 number nearest to a whole number. -/
def ofInt (i : Int) : Binary64 := ofUnits (decide (i < 0)) (i.natAbs * unitsPerOne) 1

/-- The binary64 number nearest to a natural number. -/
def ofNat (n : Nat) : Binary64 := ofUnits false (n * unitsPerOne) 1

def neg : Binary64 → Binary64
  | nan => nan
  | infinite n => infinite !n
  | finite n s p => finite (!n) s p

/-- The product, rounded once. -/
def mul (x y : Binary64) : Binary64 :=
  match x, y with
  | nan, _ | _, nan => nan
  | finite m s p, finite n t q => ofUnits (m != n) ((s * 2 ^ p) * (t * 2 ^ q)) unitsPerOne
  | x, y => if x.isZero || y.isZero then nan else infinite (x.isNegative != y.isNegative)

/-- The quotient, rounded once. -/
def div (x y : Binary64) : Binary64 :=
  match x, y with
  | nan, _ | _, nan => nan
  | infinite _, infinite _ => nan
  | infinite m, finite n _ _ => infinite (m != n)
  | finite m _ _, infinite n => finite (m != n) 0 0
  | finite m s p, finite n t q =>
    if t = 0 then (if s = 0 then nan else infinite (m != n))
    else ofUnits (m != n) ((s * 2 ^ p) * unitsPerOne) (t * 2 ^ q)

/-- `x` is a number and at most `y`. The two zeros are equal. -/
def le : Binary64 → Binary64 → Bool
  | nan, _ | _, nan => false
  | infinite true, _ | _, infinite false => true
  | infinite false, _ | _, infinite true => false
  | x, y => decide (x.units ≤ y.units)

/-- `x` is a number and less than `y`. -/
def lt (x y : Binary64) : Bool := le x y && !le y x

/-- The number of a 64-bit pattern: a sign bit, 11 bits of exponent, 52 bits of fraction. -/
def ofBits (bits : Nat) : Binary64 :=
  let fraction := bits % 2 ^ (52 : Nat)
  let exponent := bits / 2 ^ (52 : Nat) % 2 ^ (11 : Nat)
  let negative := decide (bits / 2 ^ (63 : Nat) % 2 = 1)
  if exponent = 2047 then (if fraction = 0 then infinite negative else nan)
  else if exponent = 0 then finite negative fraction 0
  else finite negative (2 ^ (52 : Nat) + fraction) (exponent - 1)

/-! ## Numbers that need no rounding -/

theorem powerOf_of_lt {n : Nat} (h : n < 2 ^ precision) : powerOf n = 0 := by
  unfold powerOf
  by_cases hn : n = 0
  · subst hn; decide
  · have := (Nat.log2_lt hn).2 h
    omega

end Binary64

end OvertimeNotice
