import OvertimeNotice.Json.Basic
import OvertimeNotice.Text.Map

/-!
# Reading typed data from JSON values

A record is read from an object, whatever the order of its members, or from the array of its
fields. A choice is the name of one of its alternatives. A tagged choice carries the name under
its tag, beside the fields of the alternative.

A tagged value is read whole before its tag is looked at. `Within` tells the values inside one
from the others: there an alternative may be tagged by its position, and an empty object does for
the missing content of an alternative without fields.
-/

namespace OvertimeNotice

namespace Json

/-- Where a value stands. -/
inductive Within where
  /-- In a text, inside so many containers. -/
  | text (depth : Nat)
  /-- In a tagged value. -/
  | tagged
deriving DecidableEq, Repr

/-- The place of a part of a value that stands at `w`. -/
def Within.inner : Within → Within
  | .text d => .text (d + 1)
  | .tagged => .tagged

def Within.isTagged : Within → Bool
  | .text _ => false
  | .tagged => true

/-! ## Plain values -/

def bool? : Json → Option Bool
  | .bool b => some b
  | _ => none

def text? : Json → Option String
  | .string s => some s
  | _ => none

/-- A whole number from `low` to `high`. -/
def integer? (low high : Int) : Json → Option Int
  | .number (.integer i) => if low ≤ i ∧ i ≤ high then some i else none
  | _ => none

/-- A whole number of 32 bits without a sign. -/
def word? (j : Json) : Option UInt32 := (j.integer? 0 4294967295).map fun i => UInt32.ofNat i.toNat

/-- A whole number of 64 bits with a sign. -/
def int64? (j : Json) : Option Int := j.integer? (-9223372036854775808) 9223372036854775807

def binary64? : Json → Option Binary64
  | .number n => some n.toBinary64
  | _ => none

/-- Null, or a value for `f`. -/
def orNull? {α : Type} (f : Json → Option α) : Json → Option (Option α)
  | .null => some none
  | j => (f j).map some

def list? {α : Type} (f : Json → Option α) : Json → Option (List α)
  | .array items => items.mapM f
  | _ => none

/-- A list of texts, as a set. -/
def textSet? (j : Json) : Option TextSet := (j.list? text?).map TextSet.ofList

/-- The members of an object; of several with one name the last. -/
def textMap? {α : Type} (f : Json → Option α) : Json → Option (TextMap α)
  | .object members =>
    (members.mapM fun m => (f m.2).map fun a => (m.1, a)).map TextMap.ofList
  | _ => none

/-! ## Records -/

/-- What a record says of one field. -/
inductive Cell where
  | given (j : Json)
  /-- The object has no such member. -/
  | missing
  /-- The array ends before the field. -/
  | cut

/-- The fields of a record by name. -/
abbrev Fields := List (String × Cell)

/-- No name of `names` occurs twice among the members. -/
def unrepeated (names : List String) (members : List (String × Json)) : Bool :=
  names.all fun n => decide ((members.filter fun m => m.1 == n).length ≤ 1)

/-- The fields `names` of an object, whose other members are ignored. -/
def memberFields? (names : List String) : Json → Option Fields
  | .object members =>
    if unrepeated names members then
      some (names.map fun n => (n, match members.lookup n with
        | some j => .given j
        | none => .missing))
    else none
  | _ => none

/-- The fields `names` of an object or, in that order, of an array. -/
def fields? (names : List String) (j : Json) : Option Fields :=
  match j with
  | .array items =>
    if items.length ≤ names.length then
      some (names.zip (items.map .given ++ List.replicate (names.length - items.length) .cut))
    else none
  | j => j.memberFields? names

namespace Fields

def cell (fs : Fields) (name : String) : Cell := (fs.lookup name).getD .missing

/-- A field that must be given. -/
def required {α : Type} (fs : Fields) (name : String) (f : Json → Option α) : Option α :=
  match fs.cell name with
  | .given j => f j
  | _ => none

/-- A field that may be null, or missing from an object. -/
def optional {α : Type} (fs : Fields) (name : String) (f : Json → Option α) :
    Option (Option α) :=
  match fs.cell name with
  | .given j => j.orNull? f
  | .missing => some none
  | .cut => none

/-- A field with a value to take when it is not given. -/
def withDefault {α : Type} (fs : Fields) (name : String) (value : α) (f : Json → Option α) :
    Option α :=
  match fs.cell name with
  | .given j => f j
  | _ => some value

end Fields

/-! ## Choices -/

/-- The name of an alternative and its content: a text, or an object with a single member. -/
def alternative? : Json → Option (String × Option Json)
  | .string s => some (s, none)
  | .object [(s, j)] => some (s, some j)
  | _ => none

/-- The content of an alternative without fields. -/
def isVoid (w : Within) : Option Json → Bool
  | none => true
  | some .null => true
  | some (.object []) => w.isTagged
  | _ => false

/-- The choice that a table of alternatives without fields gives. -/
def choice? {α : Type} (table : List (String × α)) (w : Within) (j : Json) : Option α :=
  match j.alternative? with
  | some (s, content) => if isVoid w content then table.lookup s else none
  | none => none

/-- The alternative that a tag names. -/
def tagName? (names : List String) (w : Within) : Json → Option String
  | .string s => if s ∈ names then some s else none
  | .number (.integer i) => if w.isTagged ∧ 0 ≤ i then names[i.toNat]? else none
  | _ => none

/-- The value may be read whole where it stands. -/
def isReadable (w : Within) (j : Json) : Bool :=
  match w with
  | .text depth => j.readable (maxDepth - depth)
  | .tagged => true

/-- The alternative of a tagged value and the value without its tag. The tag is a member of an
object or the first item of an array. -/
def tagged? (tag : String) (names : List String) (w : Within) (j : Json) :
    Option (String × Json) :=
  if j.isReadable w then
    match j with
    | .object members =>
      match members.filter fun m => m.1 == tag with
      | [(_, t)] =>
        (tagName? names w t).map fun n => (n, .object (members.filter fun m => m.1 != tag))
      | _ => none
    | .array (t :: items) => (tagName? names w t).map fun n => (n, .array items)
    | _ => none
  else none

/-- An object with its repeated members reduced to the last of each name. -/
def lastMembers : Json → Json
  | .object members => .object (TextMap.ofList members).toList
  | j => j

end Json

end OvertimeNotice
