import OvertimeNotice.Failure
import OvertimeNotice.Json.Escape

/-!
# Addresses of databases

What follows `file:` in the name of a database: an authority between two slashes and the next, a
path, and after a question mark options between ampersands, each a name and a value with an equals
sign between them. A percent sign and two hexadecimal digits stand for a byte. A hash sign and what
follows it mean nothing.

* `DatabaseAddress.ofBytes?`: the parts of an address.
* `DatabaseAddress.isOn`: whether an option is switched on.
-/

namespace OvertimeNotice

/-- Some bytes of a text. -/
abbrev Bytes := List UInt8

namespace Bytes

/-- The byte of an ASCII character. -/
def ofChar (c : Char) : UInt8 := UInt8.ofNat c.toNat

def ofText (s : String) : Bytes := s.toUTF8.toList

def text? (b : Bytes) : Option String := String.fromUTF8? ⟨b.toArray⟩

/-- The characters that bytes stand for one by one. -/
def chars (b : Bytes) : List Char := b.map fun o => Char.ofNat o.toNat

end Bytes

/-- The parts of an address. -/
structure DatabaseAddress where
  path : Bytes
  /-- The options with a name, in the order they are given. -/
  options : List (Bytes × Bytes)
deriving DecidableEq, Repr

namespace DatabaseAddress

/-- The value of two hexadecimal digits. -/
def octet? (high low : UInt8) : Option UInt8 := do
  let h ← JsonString.hexDigit? (Char.ofNat high.toNat)
  let l ← JsonString.hexDigit? (Char.ofNat low.toNat)
  return UInt8.ofNat (h * 16 + l)

/-- The bytes up to the first of `stop`, escapes resolved, and what is left from there. The escape
of a zero byte and what follows it up to there are dropped, as all is while `dropping`. -/
def part (stop : Option UInt8) (dropping : Bool) : Bytes → Bytes × Bytes
  | [] => ([], [])
  | c :: rest =>
    if some c = stop then ([], c :: rest)
    else if dropping then part stop true rest
    else
      match c == Bytes.ofChar '%', rest with
      | true, high :: low :: rest' =>
        match octet? high low with
        | none => let r := part stop false (high :: low :: rest'); (c :: r.1, r.2)
        | some 0 => part stop true rest'
        | some o => let r := part stop false rest'; (o :: r.1, r.2)
      | _, rest => let r := part stop false rest; (c :: r.1, r.2)
termination_by b => b.length

/-- The name of an option and its value. -/
def option (b : Bytes) : Bytes × Bytes :=
  let name := part (some (Bytes.ofChar '=')) false b
  (name.1, (part none false name.2.tail).1)

/-- What follows the authority of an address, which may only name this machine. -/
def afterAuthority? (b : Bytes) : Except DatabaseFault Bytes :=
  if (Bytes.ofText "//").isPrefixOf b then
    let rest := b.drop 2
    let authority := rest.takeWhile (· != Bytes.ofChar '/')
    if authority = [] ∨ authority = Bytes.ofText "localhost" then
      .ok (rest.dropWhile (· != Bytes.ofChar '/'))
    else .error (.badAuthority ((Bytes.text? authority).getD ""))
  else .ok b

/-- The parts of what follows `file:`. -/
def ofBytes? (b : Bytes) : Except DatabaseFault DatabaseAddress :=
  (afterAuthority? b).map fun b =>
    let path := part (some (Bytes.ofChar '?')) false (b.takeWhile (· != Bytes.ofChar '#'))
    { path := path.1
      options := ((path.2.tail.splitOn (Bytes.ofChar '&')).map option).filter fun o => o.1 != [] }

/-- The value of the first option with a name. -/
def value? (a : DatabaseAddress) (name : String) : Option Bytes :=
  a.options.lookup (Bytes.ofText name)

/-! ## Switches -/

/-- The number at the start of a text, in decimal digits or, after a zero and an x, hexadecimal
ones; zero if it needs more than 31 bits. -/
def numberAtStart (cs : List Char) : Nat :=
  let decimal := Numeral.ofDigits (cs.takeWhile Char.isDigit)
  let n := match cs with
    | '0' :: x :: rest =>
      if x = 'x' ∨ x = 'X' then
        rest.takeWhile (fun c => (JsonString.hexDigit? c).isSome) |>.foldl
          (fun n c => n * 16 + (JsonString.hexDigit? c).getD 0) 0
      else decimal
    | _ => decimal
  if n ≤ Numeral.max31 then n else 0

/-- Whether a value means that something is wanted: a word that says so, or a number that is not
zero in its last eight bits. -/
def isAssent (b : Bytes) : Bool :=
  match b.chars with
  | [] => false
  | c :: cs =>
    if c.isDigit then numberAtStart (c :: cs) % 256 != 0
    else ["on", "yes", "true"].contains (String.ofList ((c :: cs).map Char.toLower))

/-- Whether an option is switched on. -/
def isOn (a : DatabaseAddress) (name : String) : Bool := (a.value? name).any isAssent

end DatabaseAddress

end OvertimeNotice
