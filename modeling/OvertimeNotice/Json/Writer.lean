import OvertimeNotice.Json.Basic
import OvertimeNotice.Json.Escape
import OvertimeNotice.Binary64.Layout

/-!
# Writing JSON

Two forms of a value: the compact one on a single line, and the pretty one with a member or item
a line, indented by two spaces a level. Names stand in the order of the value.
-/

namespace OvertimeNotice

namespace Json

/-- The text of a whole number. -/
def integerText (i : Int) : List Char :=
  (if i < 0 then ['-'] else []) ++ Nat.toDigits 10 i.natAbs

/-- The text of a number; one without a finite value is null. -/
def numberText : Number → List Char
  | .integer i => integerText i
  | .real x => x.text?.getD ['n', 'u', 'l', 'l']

/-- The text of a value without parts; a value that cannot be read has none. -/
def scalarText : Json → List Char
  | .null => ['n', 'u', 'l', 'l']
  | .bool true => ['t', 'r', 'u', 'e']
  | .bool false => ['f', 'a', 'l', 's', 'e']
  | .number n => numberText n
  | .string s => JsonString.write s
  | _ => ['n', 'u', 'l', 'l']

mutual

/-- The compact form. -/
def compactChars : Json → List Char
  | .array items => '[' :: (compactItems items ++ [']'])
  | .object members => '\x7b' :: (compactMembers members ++ ['\x7d'])
  | j => scalarText j

def compactItems : List Json → List Char
  | [] => []
  | [j] => compactChars j
  | j :: k :: js => compactChars j ++ ',' :: compactItems (k :: js)

def compactMembers : List (String × Json) → List Char
  | [] => []
  | [(s, j)] => JsonString.write s ++ ':' :: compactChars j
  | (s, j) :: m :: ms =>
    JsonString.write s ++ ':' :: (compactChars j ++ ',' :: compactMembers (m :: ms))

end

/-- A line break and the indentation of a level. -/
def newLine (level : Nat) : List Char := '\n' :: List.replicate (2 * level) ' '

mutual

/-- The pretty form, inside `level` containers. -/
def prettyChars (level : Nat) : Json → List Char
  | .array [] => ['[', ']']
  | .array (j :: js) =>
    '[' :: (newLine (level + 1) ++ prettyItems (level + 1) (j :: js) ++ newLine level ++ [']'])
  | .object [] => ['\x7b', '\x7d']
  | .object (m :: ms) =>
    '\x7b' ::
      (newLine (level + 1) ++ prettyMembers (level + 1) (m :: ms) ++ newLine level ++ ['\x7d'])
  | j => scalarText j

def prettyItems (level : Nat) : List Json → List Char
  | [] => []
  | [j] => prettyChars level j
  | j :: k :: js => prettyChars level j ++ ',' :: (newLine level ++ prettyItems level (k :: js))

def prettyMembers (level : Nat) : List (String × Json) → List Char
  | [] => []
  | [(s, j)] => JsonString.write s ++ ':' :: ' ' :: prettyChars level j
  | (s, j) :: m :: ms =>
    JsonString.write s ++ ':' :: ' ' ::
      (prettyChars level j ++ ',' :: (newLine level ++ prettyMembers level (m :: ms)))

end

/-- The value on one line. -/
def compact (j : Json) : String := String.ofList (compactChars j)

/-- The value over several lines, no line break at the end. -/
def pretty (j : Json) : String := String.ofList (prettyChars 0 j)

end Json

end OvertimeNotice
