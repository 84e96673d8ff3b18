/-!
# Escapes in JSON strings

The characters between the quotes of a JSON string, and the text they denote. A character beyond
the first 65536 may be written as two escapes, one for each half of its surrogate pair.

* `join?_pieces?_escape`: an escaped text denotes that text.
-/

namespace OvertimeNotice

namespace JsonString

/-- What one character or escape between the quotes stands for. -/
inductive Piece where
  | char (c : Char)
  /-- Four hexadecimal digits. -/
  | unit (n : Nat)
deriving DecidableEq, Repr

def hexDigit? (c : Char) : Option Nat :=
  if '0' ≤ c ∧ c ≤ '9' then some (c.toNat - '0'.toNat)
  else if 'a' ≤ c ∧ c ≤ 'f' then some (c.toNat - 'a'.toNat + 10)
  else if 'A' ≤ c ∧ c ≤ 'F' then some (c.toNat - 'A'.toNat + 10)
  else none

/-- The value of four hexadecimal digits. -/
def hex4? (a b c d : Char) : Option Nat := do
  let a ← hexDigit? a
  let b ← hexDigit? b
  let c ← hexDigit? c
  let d ← hexDigit? d
  return ((a * 16 + b) * 16 + c) * 16 + d

/-- The character of an escape of one letter. -/
def letterEscape? (c : Char) : Option Char :=
  if c = '"' then some '"'
  else if c = '\\' then some '\\'
  else if c = '/' then some '/'
  else if c = 'b' then some '\x08'
  else if c = 'f' then some '\x0c'
  else if c = 'n' then some '\n'
  else if c = 'r' then some '\r'
  else if c = 't' then some '\t'
  else none

/-- The pieces between two quotes; none for an escape outside the grammar or a bare control. -/
def pieces? : List Char → Option (List Piece)
  | [] => some []
  | '\\' :: 'u' :: a :: b :: c :: d :: rest =>
    (hex4? a b c d).bind fun n => (pieces? rest).map (.unit n :: ·)
  | '\\' :: c :: rest =>
    (letterEscape? c).bind fun e => (pieces? rest).map (.char e :: ·)
  | c :: rest =>
    if c = '\\' ∨ c.toNat < 0x20 then none else (pieces? rest).map (.char c :: ·)

def isHighSurrogate (n : Nat) : Bool := decide (0xD800 ≤ n) && decide (n ≤ 0xDBFF)

def isLowSurrogate (n : Nat) : Bool := decide (0xDC00 ≤ n) && decide (n ≤ 0xDFFF)

/-- The characters of the pieces; none for half of a surrogate pair. -/
def join? : List Piece → Option (List Char)
  | [] => some []
  | .char c :: rest => (join? rest).map (c :: ·)
  | .unit high :: .unit low :: rest =>
    if isHighSurrogate high then
      if isLowSurrogate low then
        (join? rest).map
          (Char.ofNat (0x10000 + (high - 0xD800) * 0x400 + (low - 0xDC00)) :: ·)
      else none
    else if isLowSurrogate high then none
    else (join? (.unit low :: rest)).map (Char.ofNat high :: ·)
  | .unit n :: rest =>
    if isHighSurrogate n || isLowSurrogate n then none
    else (join? rest).map (Char.ofNat n :: ·)

/-! ## Writing -/

/-- A hexadecimal digit in lower case. -/
def hexDigit (n : Nat) : Char := Nat.digitChar n

/-- How a character is written between quotes: only quotes, backslashes and controls change. -/
def escapeChar (c : Char) : List Char :=
  if c = '"' then ['\\', '"']
  else if c = '\\' then ['\\', '\\']
  else if c = '\x08' then ['\\', 'b']
  else if c = '\t' then ['\\', 't']
  else if c = '\n' then ['\\', 'n']
  else if c = '\x0c' then ['\\', 'f']
  else if c = '\r' then ['\\', 'r']
  else if c.toNat < 0x20 then
    ['\\', 'u', '0', '0', hexDigit (c.toNat / 16), hexDigit (c.toNat % 16)]
  else [c]

def escape (cs : List Char) : List Char := cs.flatMap escapeChar

/-- The string with its quotes. -/
def write (s : String) : List Char := '"' :: (escape s.toList ++ ['"'])

/-! ## Reading what was written -/

/-- The piece that a written character is read as: a control without a letter is a unit. -/
def pieceOf (c : Char) : Piece :=
  if c.toNat < 0x20 ∧ c ∉ ['\x08', '\t', '\n', '\x0c', '\r'] then .unit c.toNat else .char c

theorem pieces?_unit {a b c d : Char} {n : Nat} (h : hex4? a b c d = some n) (rest : List Char) :
    pieces? ('\\' :: 'u' :: a :: b :: c :: d :: rest) = (pieces? rest).map (.unit n :: ·) := by
  rw [pieces?, h, Option.bind_some]

theorem pieces?_letter {c e : Char} (h : letterEscape? c = some e) (rest : List Char) :
    pieces? ('\\' :: c :: rest) = (pieces? rest).map (.char e :: ·) := by
  rw [pieces?, h, Option.bind_some]
  rintro _ _ _ _ _ rfl
  simp [letterEscape?] at h

theorem pieces?_plain {c : Char} (h : ¬(c = '\\' ∨ c.toNat < 0x20)) (rest : List Char) :
    pieces? (c :: rest) = (pieces? rest).map (.char c :: ·) := by
  rw [pieces?, if_neg h]
  · intro _ _ _ _ _ hc; exact absurd hc (by simp_all)
  · intro _ _ hc; exact absurd hc (by simp_all)

theorem hex4?_control : ∀ n : Fin 32,
    hex4? '0' '0' (hexDigit (n / 16)) (hexDigit (n % 16)) = some n.val := by
  decide

theorem pieces?_escapeChar (c : Char) (rest : List Char) :
    pieces? (escapeChar c ++ rest) = (pieces? rest).map (pieceOf c :: ·) := by
  fun_cases escapeChar c
  case case8 h =>
    rw [pieceOf, if_pos ⟨h, by simp [*]⟩]
    exact pieces?_unit (hex4?_control ⟨c.toNat, h⟩) rest
  case case9 h =>
    rw [pieceOf, if_neg fun hc => h hc.1]
    exact pieces?_plain (by simp [*]) rest
  all_goals
    subst_vars
    rw [List.cons_append, List.singleton_append, pieces?_letter rfl]
    rfl

theorem pieces?_escape (cs : List Char) : pieces? (escape cs) = some (cs.map pieceOf) := by
  induction cs with
  | nil => rfl
  | cons c cs ih => rw [escape, List.flatMap_cons, pieces?_escapeChar, ← escape, ih]; rfl

theorem join?_cons_pieceOf (c : Char) (ps : List Piece) :
    join? (pieceOf c :: ps) = (join? ps).map (c :: ·) := by
  unfold pieceOf
  split
  case isFalse => rfl
  case isTrue h =>
    have hh : isHighSurrogate c.toNat = false := by simp [isHighSurrogate]; omega
    have hl : isLowSurrogate c.toNat = false := by simp [isLowSurrogate]; omega
    cases ps with
    | nil => simp [join?, hh, hl]
    | cons p ps => cases p <;> simp [join?, hh, hl]

/-- What is written between quotes is read back. -/
theorem join?_pieces?_escape (cs : List Char) : (pieces? (escape cs)).bind join? = some cs := by
  rw [pieces?_escape, Option.bind_some]
  induction cs with
  | nil => rfl
  | cons c cs ih => rw [List.map_cons, join?_cons_pieceOf, ih]; rfl

end JsonString

end OvertimeNotice
