import OvertimeNotice.Binary64.Basic

/-!
# JSON values

The values that a JSON text denotes. Members of an object keep their order, and a name that
occurs twice is kept twice: what a repeated name means is for the reader of the value to say.

* `Json.readable`: the values that may be read whole within a number of nested containers.
-/

namespace OvertimeNotice

/-- A number: a whole number of 64 bits, signed or not, or else a binary64 number. -/
inductive Number where
  | integer (i : Int)
  | real (x : Binary64)
deriving DecidableEq, Repr, Inhabited

/-- The binary64 number nearest to a number. -/
def Number.toBinary64 : Number → Binary64
  | .integer i => Binary64.ofInt i
  | .real x => x

/-- A JSON value. `illFormed` stands for a string with an escape that names no character, an
object with such a name, or a number beyond binary64: it may be skipped but not read. -/
inductive Json where
  | null
  | bool (b : Bool)
  | number (n : Number)
  | string (s : String)
  | array (items : List Json)
  | object (members : List (String × Json))
  | illFormed
deriving Inhabited

namespace Json

/-- A list of texts. -/
def texts (l : List String) : Json := .array (l.map .string)

/-- A natural number. -/
def nat (n : Nat) : Json := .number (.integer n)

/-- A binary64 number. -/
def real (x : Binary64) : Json := .number (.real x)

/-- A value that may be missing. -/
def nullable {α : Type} (f : α → Json) : Option α → Json
  | none => .null
  | some a => f a

mutual

/-- Every part of the value can be read, and no more than `room` containers are nested. -/
def readable (room : Nat) : Json → Bool
  | .array items => decide (0 < room) && readableItems (room - 1) items
  | .object members => decide (0 < room) && readableMembers (room - 1) members
  | .illFormed => false
  | _ => true

def readableItems (room : Nat) : List Json → Bool
  | [] => true
  | j :: js => readable room j && readableItems room js

def readableMembers (room : Nat) : List (String × Json) → Bool
  | [] => true
  | (_, j) :: ms => readable room j && readableMembers room ms

end

/-- The number of nested containers that are read at most. -/
def maxDepth : Nat := 127

end Json

end OvertimeNotice
