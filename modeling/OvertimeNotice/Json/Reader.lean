import OvertimeNotice.Json.Token

/-!
# Reading JSON

The value of a text, from its tokens. The reader keeps a stack of the containers that are still
open, so the depth of a text costs it no more than its length.

* `run?_append`: reading two lists of tokens is reading one after the other.
-/

namespace OvertimeNotice

namespace JsonReader

/-- A container that waits for a value: what it holds so far, last first, and the name that the
value goes under. -/
inductive Frame where
  | array (done : List Json)
  | object (done : List (Option String × Json)) (name : Option String)

/-- What may come next in the innermost container. -/
inductive Expect where
  | value
  | firstItem
  | itemEnd (done : List Json)
  | firstName
  | nextName (done : List (Option String × Json))
  | colon (done : List (Option String × Json)) (name : Option String)
  | memberEnd (done : List (Option String × Json))
  /-- Nothing: the value is complete. -/
  | done (j : Json)

/-- The reader between two tokens. -/
structure State where
  expect : Expect
  stack : List Frame

/-- The object of its members, last first. -/
def objectOf (members : List (Option String × Json)) : Json :=
  match members.reverse.mapM fun m => m.1.map fun k => (k, m.2) with
  | some ms => .object ms
  | none => .illFormed

/-- A complete value goes to the innermost container that waits for one. -/
def settle (j : Json) : List Frame → State
  | [] => ⟨.done j, []⟩
  | .array items :: fs => ⟨.itemEnd (j :: items), fs⟩
  | .object members name :: fs => ⟨.memberEnd ((name, j) :: members), fs⟩

/-- The first token of a value. -/
def value? (stack : List Frame) : Token → Option State
  | .scalar j => some (settle j stack)
  | .string (some s) => some (settle (.string s) stack)
  | .string none => some (settle .illFormed stack)
  | .openBracket => some ⟨.firstItem, stack⟩
  | .openBrace => some ⟨.firstName, stack⟩
  | _ => none

/-- One more token. -/
def step? (s : State) (t : Token) : Option State :=
  match s.expect, t with
  | .value, t => value? s.stack t
  | .firstItem, .closeBracket => some (settle (.array []) s.stack)
  | .firstItem, t => value? (.array [] :: s.stack) t
  | .itemEnd items, .comma => some ⟨.value, .array items :: s.stack⟩
  | .itemEnd items, .closeBracket => some (settle (.array items.reverse) s.stack)
  | .firstName, .closeBrace => some (settle (.object []) s.stack)
  | .firstName, .string name => some ⟨.colon [] name, s.stack⟩
  | .nextName members, .string name => some ⟨.colon members name, s.stack⟩
  | .colon members name, .colon => some ⟨.value, .object members name :: s.stack⟩
  | .memberEnd members, .comma => some ⟨.nextName members, s.stack⟩
  | .memberEnd members, .closeBrace => some (settle (objectOf members) s.stack)
  | _, _ => none

/-- The reader after some tokens. -/
def run? (s : State) (ts : List Token) : Option State := ts.foldlM step? s

/-- The value of a complete list of tokens. -/
def build? (ts : List Token) : Option Json :=
  (run? ⟨.value, []⟩ ts).bind fun s =>
    match s.expect with
    | .done j => some j
    | _ => none

theorem run?_append (s : State) (ts us : List Token) :
    run? s (ts ++ us) = (run? s ts).bind fun t => run? t us := by
  simp [run?, List.foldlM_append]

end JsonReader

/-- The value of a JSON text; none if the text does not follow the grammar. -/
def Json.parse? (s : String) : Option Json := (Token.list? s.toList).bind JsonReader.build?

end OvertimeNotice
