import OvertimeNotice.Json.Numeral
import OvertimeNotice.Json.Escape

/-!
# Tokens of a JSON text

A text is cut into tokens by a machine that reads it character by character. Between tokens it
skips white space; a string lasts to its closing quote, and a word (a number or one of `true`,
`false`, `null`) as long as characters of words follow.

* `Token.list?`: the tokens of a text.
-/

namespace OvertimeNotice

/-- A token. The text of a string is missing if an escape in it names no character. -/
inductive Token where
  | openBracket
  | closeBracket
  | openBrace
  | closeBrace
  | colon
  | comma
  | string (s : Option String)
  | scalar (j : Json)
deriving Inhabited

namespace Token

/-- The mark that `c` is. -/
def mark? (c : Char) : Option Token :=
  if c = '[' then some openBracket
  else if c = ']' then some closeBracket
  else if c = '\x7b' then some openBrace
  else if c = '\x7d' then some closeBrace
  else if c = ':' then some colon
  else if c = ',' then some comma
  else none

/-- The four characters that may stand between tokens. -/
def isGap (c : Char) : Bool := c == ' ' || c == '\t' || c == '\n' || c == '\r'

/-- The characters of numbers and of the three names. -/
def isWordChar (c : Char) : Bool :=
  c.isDigit || c.isLower || c == 'E' || c == '+' || c == '-' || c == '.'

/-- The token of a word. -/
def ofWord? (cs : List Char) : Option Token :=
  if cs = ['n', 'u', 'l', 'l'] then some (scalar .null)
  else if cs = ['t', 'r', 'u', 'e'] then some (scalar (.bool true))
  else if cs = ['f', 'a', 'l', 's', 'e'] then some (scalar (.bool false))
  else (JsonNumeral.parse? cs).map fun n =>
    scalar (match n.value? with
      | some v => .number v
      | none => .illFormed)

/-- The token of the characters between two quotes. -/
def ofString? (cs : List Char) : Option Token :=
  (JsonString.pieces? cs).map fun ps => string ((JsonString.join? ps).map String.ofList)

/-- Where the machine stands. The characters of an unfinished token are kept last first. -/
inductive Place where
  | between
  | inString (read : List Char) (escaped : Bool)
  | inWord (read : List Char)

/-- The machine: where it stands and the tokens it has cut off, last first. -/
structure Scanner where
  place : Place
  tokens : List Token

/-- A character read between tokens. -/
def start? (tokens : List Token) (c : Char) : Option Scanner :=
  if isGap c then some ⟨.between, tokens⟩
  else if c = '"' then some ⟨.inString [] false, tokens⟩
  else if isWordChar c then some ⟨.inWord [c], tokens⟩
  else (mark? c).map fun t => ⟨.between, t :: tokens⟩

/-- One more character. -/
def step? (s : Scanner) (c : Char) : Option Scanner :=
  match s.place with
  | .between => start? s.tokens c
  | .inString read true => some ⟨.inString (c :: read) false, s.tokens⟩
  | .inString read false =>
    if c = '"' then (ofString? read.reverse).map fun t => ⟨.between, t :: s.tokens⟩
    else some ⟨.inString (c :: read) (c == '\\'), s.tokens⟩
  | .inWord read =>
    if isWordChar c then some ⟨.inWord (c :: read), s.tokens⟩
    else (ofWord? read.reverse).bind fun t => start? (t :: s.tokens) c

/-- The end of the text. -/
def finish? (s : Scanner) : Option (List Token) :=
  match s.place with
  | .between => some s.tokens.reverse
  | .inString .. => none
  | .inWord read => (ofWord? read.reverse).map fun t => (t :: s.tokens).reverse

/-- The machine after some text. -/
def scan? (s : Scanner) (cs : List Char) : Option Scanner := cs.foldlM step? s

/-- The tokens of a text. -/
def list? (cs : List Char) : Option (List Token) := (scan? ⟨.between, []⟩ cs).bind finish?

end Token

end OvertimeNotice
