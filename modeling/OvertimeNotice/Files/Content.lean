import OvertimeNotice.State.Database

/-!
# Contents of files

What a file holds. A database keeps its tables instead of the bytes that spell them, and what a
file means beside a database depends on its bytes alone.
-/

namespace OvertimeNotice

-- Bytes are compared as the core library does, whatever else is in scope.
attribute [local instance (high)] ByteArray.instDecidableEq

/-- What a file holds. -/
inductive Content where
  | bytes (bytes : ByteArray)
  /-- The tables of a database stand for the bytes that spell them. Of a `logged` one, changes are
  kept in a file beside it before they come here. -/
  | database (database : Database) (logged : Bool)
deriving DecidableEq

namespace Content

def ofText (s : String) : Content := bytes s.toUTF8

def text? : Content → Option String
  | bytes b => String.fromUTF8? b
  | database _ _ => none

/-- The content of an empty file. -/
def nothing : Content := bytes ByteArray.empty

/-- Nothing at all. -/
def isVoid : Content → Bool
  | bytes b => b.size == 0
  | database .. => false

/-- A file of one byte counts as empty. -/
def isEmpty : Content → Bool
  | bytes b => decide (b.size ≤ 1)
  | database .. => false

/-- The database that a file holds. -/
def database? : Content → Option Database
  | database d _ => some d
  | bytes b => if b.size ≤ 1 then some .blank else none

/-- Whether changes go to a log. -/
def isLogged : Content → Bool
  | database _ logged => logged
  | bytes _ => false

/-- The same file with another database in it. -/
def withDatabase (c : Content) (d : Database) : Content := database d c.isLogged

/-- Whether a journal with this content has something to put back. -/
def isHot : Content → Bool
  | bytes b => (b.data[0]?).any (· != 0)
  | database .. => true

/-- A log, or its index, with something in it: bytes that are no text. -/
def logged : Content := bytes ⟨#[0x37, 0x7f, 0x06, 0x82]⟩

end Content

end OvertimeNotice
