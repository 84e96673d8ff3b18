import OvertimeNotice.State.Ledger

/-!
# Sequences of calls to a ledger

What can be asked of a ledger, and the answers to a sequence of calls, each on the ledger that the
one before it left.

* `Ledger.performAll`: calls made one after the other.
-/

namespace OvertimeNotice

/-- A call to a ledger. -/
inductive LedgerCall where
  | has (mark : Mark)
  | mark (mark : Mark)
  | reset (month : Month)
  | drain
  /-- A new ledger over the same backend takes the place of the old one. -/
  | reopen
deriving DecidableEq, Repr

/-- What a ledger answers. -/
inductive LedgerAnswer where
  | sent (yes : Bool)
  | marked (result : Except Failure Unit)
  | purged (result : Except Failure Nat)
  | drained (warnings : List Warning)
  | reopened

/-- The answer about a mark, if it was asked for. -/
def LedgerAnswer.sent? : LedgerAnswer → Option Bool
  | sent yes => some yes
  | _ => none

namespace Ledger

variable {σ : Type}

/-- One call. -/
def perform (b : Backend σ) (c : LedgerCall) (l : Ledger σ) : LedgerAnswer × Ledger σ :=
  match c with
  | .has e => (l.hasNotified b e.employee e.month e.marker).map .sent id
  | .mark e => (l.markNotified b e.employee e.month e.marker).map .marked id
  | .reset m => (l.reset b m).map .purged id
  | .drain => l.drain.map .drained id
  | .reopen => (.reopened, l.reopen)

/-- The answers to calls made one after the other, and the ledger after them. -/
def performAll (b : Backend σ) : List LedgerCall → Ledger σ → List LedgerAnswer × Ledger σ
  | [], l => ([], l)
  | c :: cs, l =>
    let r := l.perform b c
    let more := performAll b cs r.2
    (r.1 :: more.1, more.2)

theorem performAll_append (b : Backend σ) (calls more : List LedgerCall) (l : Ledger σ) :
    performAll b (calls ++ more) l = ((performAll b calls l).1 ++
      (performAll b more (performAll b calls l).2).1,
      (performAll b more (performAll b calls l).2).2) := by
  induction calls generalizing l with
  | nil => rfl
  | cons c cs ih => simp only [List.cons_append, performAll, ih]

end Ledger

end OvertimeNotice
