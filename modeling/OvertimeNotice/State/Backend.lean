import OvertimeNotice.State.Mark

/-!
# Backends

What keeps the marks between runs. A backend is three operations on a state of its own; each may
fail, and each leaves a state behind, failed or not.

* `Backend.memory`: marks in a list, with a switch to make each operation fail.
-/

namespace OvertimeNotice

/-- The operations of a backend with states `σ`. -/
structure Backend (σ : Type) where
  /-- The marks recorded for a month. -/
  load : Month → σ → Except Failure (List Mark) × σ
  /-- Records a mark; recording it again changes nothing. -/
  upsert : Mark → σ → Except Failure Unit × σ
  /-- Drops the marks of the months before a month, and counts them. -/
  purge : Month → σ → Except Failure Nat × σ

namespace Backend

/-- The same operations on a part of a larger state. -/
def within {σ τ : Type} (b : Backend σ) (get : τ → σ) (put : σ → τ → τ) : Backend τ where
  load m t := let r := b.load m (get t); (r.1, put r.2 t)
  upsert e t := let r := b.upsert e (get t); (r.1, put r.2 t)
  purge m t := let r := b.purge m (get t); (r.1, put r.2 t)

end Backend

/-- Marks in memory, in the order they came, and which operations fail. -/
structure MemoryMarks where
  marks : List Mark
  failRead : Bool
  failWrite : Bool
  failPurge : Bool
deriving DecidableEq, Repr

namespace MemoryMarks

def empty : MemoryMarks :=
  { marks := [], failRead := false, failWrite := false, failPurge := false }

end MemoryMarks

/-- A backend in memory. It loads every mark, of whatever month, and records a mark as often as
it is told to. -/
def Backend.memory : Backend MemoryMarks where
  load _ s := (if s.failRead then .error (.corruptState "garbage") else .ok s.marks, s)
  upsert e s :=
    if s.failWrite then (.error (.corruptState "disk full"), s)
    else (.ok (), { s with marks := s.marks ++ [e] })
  purge m s :=
    if s.failPurge then (.error (.corruptState "cannot purge"), s)
    else
      let kept := s.marks.filter fun e => decide (m ≤ e.month)
      (.ok (s.marks.length - kept.length), { s with marks := kept })

end OvertimeNotice
