import OvertimeNotice.Json.Basic

/-!
# JSON numerals

The grammar of numbers in a JSON text and the number that each denotes. A whole number of 64 bits
is exact. Any other is read in two steps: its leading digits, as many as 64 bits hold, are rounded
to binary64; that is multiplied or divided by a power of ten, itself rounded. The result may
therefore miss the nearest binary64 number in its last place.
-/

namespace OvertimeNotice

/-- The parts of a numeral; no digits after the point means no point. -/
structure JsonNumeral where
  negative : Bool
  whole : List Char
  fraction : List Char
  /-- Sign and digits of the exponent. -/
  exponent : Option (Bool × List Char)
deriving DecidableEq, Repr

namespace JsonNumeral

-- Powers are those of the core library, whatever else is in scope.
attribute [local instance (high)] instPowNat

/-- One digit or more at the front, and what follows them. -/
def digits? (cs : List Char) : Option (List Char × List Char) :=
  match cs.takeWhile Char.isDigit with
  | [] => none
  | ds => some (ds, cs.dropWhile Char.isDigit)

/-- An exponent that takes up all of `cs`, or nothing. -/
def exponent? (cs : List Char) : Option (Option (Bool × List Char)) :=
  match cs with
  | [] => some none
  | mark :: rest =>
    if mark = 'e' ∨ mark = 'E' then
      let negative := decide (rest.head? = some '-')
      let unsigned := if rest.head? = some '-' ∨ rest.head? = some '+' then rest.tail else rest
      match digits? unsigned with
      | some (ds, []) => some (some (negative, ds))
      | _ => none
    else none

/-- A fraction, if there is one, and what follows it. -/
def fraction? (cs : List Char) : Option (List Char × List Char) :=
  if cs.head? = some '.' then digits? cs.tail else some ([], cs)

/-- The numeral that takes up all of `cs`. A zero at the front stands alone. -/
def parse? (cs : List Char) : Option JsonNumeral := do
  let negative := decide (cs.head? = some '-')
  let (whole, rest) ← digits? (if negative then cs.tail else cs)
  if whole.head? = some '0' ∧ whole ≠ ['0'] then none
  let (fraction, rest) ← fraction? rest
  let exponent ← exponent? rest
  return { negative, whole, fraction, exponent }

/-! ## The number denoted -/

/-- The digit's value. -/
def digit (c : Char) : Nat := c.toNat - '0'.toNat

/-- Digits taken into a significand of 64 bits while they fit, and the digits left over. -/
def absorb (significand : Nat) : List Char → Nat × List Char
  | [] => (significand, [])
  | d :: ds =>
    if significand * 10 + digit d < 2 ^ (64 : Nat) then absorb (significand * 10 + digit d) ds
    else (significand, d :: ds)

/-- The largest power of ten that a number is multiplied or divided by at once. -/
def maxTen : Nat := 308

/-- The binary64 number nearest to `10^k`. -/
def tenTo (k : Nat) : Binary64 := Binary64.ofNat (10 ^ k)

/-- `x` times `10^e`, in steps of at most `10^308`, each rounded; none beyond the largest finite
number. -/
def scale? (x : Binary64) (e : Int) : Option Binary64 :=
  if e.natAbs ≤ maxTen then
    if 0 ≤ e then
      let y := x.mul (tenTo e.toNat)
      if y.isFinite then some y else none
    else some (x.div (tenTo (-e).toNat))
  else if x.isZero then some x
  else if 0 ≤ e then none
  else scale? (x.div (tenTo maxTen)) (e + maxTen)
termination_by (-e).toNat
decreasing_by simp only [maxTen] at *; omega

/-- `x`, negated if `negative`. -/
def signed (negative : Bool) (x : Binary64) : Binary64 := if negative then x.neg else x

/-- The number of a numeral; none if it lies beyond the finite numbers. -/
def value? (n : JsonNumeral) : Option Number :=
  let (sig, left) := absorb 0 n.whole
  match n.fraction, n.exponent, left with
  | [], none, [] =>
    if n.negative then
      if sig = 0 ∨ 2 ^ (63 : Nat) < sig then some (.real (Binary64.ofNat sig).neg)
      else some (.integer (-sig))
    else some (.integer sig)
  | fraction, exponent, left =>
    let (sig, dropped) := absorb sig fraction
    let start : Int := left.length - (fraction.length - dropped.length : Nat)
    let scaled : Option Binary64 :=
      match exponent with
      | none => scale? (Binary64.ofNat sig) start
      | some (below, ds) =>
        let e := Nat.ofDigitChars 10 ds 0
        if e ≤ 2147483647 then
          scale? (Binary64.ofNat sig) (if below then start - e else start + e)
        else if sig ≠ 0 ∧ below = false then none
        else some Binary64.zero
    scaled.map fun x => .real (signed n.negative x)

end JsonNumeral

end OvertimeNotice
