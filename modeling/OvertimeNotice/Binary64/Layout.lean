import OvertimeNotice.Binary64.Shortest

/-!
# The text of a binary64 number

A finite number is written with its shortest digits. `NumberLayout` holds the decisions that are
left: where the positional form ends and how an exponent is marked.
-/

namespace OvertimeNotice

/-- How digits and exponent become text. -/
structure NumberLayout where
  /-- The least exponent of the leading digit that is written without an exponent. -/
  leastPositional : Int
  /-- The largest such exponent. -/
  largestPositional : Int
  /-- What stands after a whole number in positional form. -/
  wholeMark : List Char
  /-- What stands between the digits and a positive exponent. -/
  positiveMark : List Char
  /-- What stands between the digits and the magnitude of a negative exponent. -/
  negativeMark : List Char

namespace NumberLayout

/-- Numbers from `10^-5` up to `10^16` stand without an exponent, a whole one with `.0`; an
exponent always carries its sign. -/
def standard : NumberLayout :=
  { leastPositional := -5
    largestPositional := 15
    wholeMark := ['.', '0']
    positiveMark := ['e', '+']
    negativeMark := ['e', '-'] }

/-- The digits `ds` with a point after the first `before` of them; `before` may lie outside. -/
def positional (layout : NumberLayout) (ds : List Char) (before : Int) : List Char :=
  if before ≤ 0 then ['0', '.'] ++ List.replicate (-before).toNat '0' ++ ds
  else if ds.length ≤ before.toNat then
    ds ++ List.replicate (before.toNat - ds.length) '0' ++ layout.wholeMark
  else ds.take before.toNat ++ ['.'] ++ ds.drop before.toNat

/-- One digit, the others after a point, and the exponent of the first. -/
def scientific (layout : NumberLayout) (ds : List Char) (lead : Int) : List Char :=
  ds.take 1 ++ (if ds.length ≤ 1 then [] else '.' :: ds.drop 1)
    ++ (if lead < 0 then layout.negativeMark else layout.positiveMark)
    ++ Nat.toDigits 10 lead.natAbs

/-- The text of a decimal that is not negative. -/
def write (layout : NumberLayout) (d : Decimal) : List Char :=
  let ds := Nat.toDigits 10 d.digits
  let lead := d.exponent + ds.length - 1
  if layout.leastPositional ≤ lead ∧ lead ≤ layout.largestPositional then
    layout.positional ds (lead + 1)
  else layout.scientific ds lead

end NumberLayout

namespace Binary64

/-- The text of a finite number; nothing for the others. -/
def text? : Binary64 → Option (List Char)
  | finite n s p =>
    some ((if n then ['-'] else []) ++ NumberLayout.standard.write (shortest s p))
  | _ => none

end Binary64

end OvertimeNotice
