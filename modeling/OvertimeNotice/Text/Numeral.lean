/-!
# Decimal numerals

Whole numbers as ASCII digits: written with zeros in front up to a width, read with an optional
plus sign and up to a limit.

* `ofDigits_padded`: zeros in front change no value.
-/

namespace OvertimeNotice

namespace Numeral

/-- The decimal digits of `n`, no zeros in front. -/
def natDigits (n : Nat) : List Char := Nat.toDigits 10 n

/-- The number that decimal digits denote. -/
def ofDigits (cs : List Char) : Nat := Nat.ofDigitChars 10 cs 0

/-- `cs` with zeros in front up to `width` characters. -/
def zeroPad (width : Nat) (cs : List Char) : List Char :=
  List.replicate (width - cs.length) '0' ++ cs

/-- `n` with at least `width` digits. -/
def padded (width n : Nat) : List Char := zeroPad width (natDigits n)

/-- `i` with zeros between its sign and its digits up to `width` characters, sign included. -/
def paddedInt (width : Nat) (i : Int) : List Char :=
  if i < 0 then '-' :: padded (width - 1) i.natAbs else padded width i.natAbs

/-- Digits, at least one and nothing else, of a number of at most `limit`. -/
def readDigits? (limit : Nat) (cs : List Char) : Option Nat :=
  if cs ≠ [] ∧ cs.all Char.isDigit = true ∧ ofDigits cs ≤ limit then some (ofDigits cs) else none

/-- An optional plus sign, then digits of a number of at most `limit`. -/
def read? (limit : Nat) (cs : List Char) : Option Nat :=
  readDigits? limit (if cs.head? = some '+' then cs.tail else cs)

/-- The largest value of 32 bits. -/
def max32 : Nat := 4294967295

/-- The largest value of 31 bits. -/
def max31 : Nat := 2147483647

/-! ## Digits -/

@[simp] theorem ofDigits_natDigits (n : Nat) : ofDigits (natDigits n) = n :=
  Nat.ofDigitChars_ten_toDigits

theorem natDigits_ne_nil (n : Nat) : natDigits n ≠ [] := Nat.toDigits_ne_nil

theorem isDigit_of_mem_natDigits {n : Nat} {c : Char} (h : c ∈ natDigits n) :
    c.isDigit = true :=
  Nat.isDigit_of_mem_toDigits (by decide) (by decide) h

/-- Zeros in front change no value. -/
@[simp] theorem ofDigits_padded (width n : Nat) : ofDigits (padded width n) = n := by
  unfold padded zeroPad ofDigits
  rw [Nat.ofDigitChars_append, Nat.ofDigitChars_replicate_zero, Nat.mul_zero]
  exact ofDigits_natDigits n

end Numeral

end OvertimeNotice
