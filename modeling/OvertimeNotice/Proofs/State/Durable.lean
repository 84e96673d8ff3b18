import OvertimeNotice.Proofs.Calendar.MonthText
import OvertimeNotice.State.Backend

/-!
# Backends that lose nothing

What can be relied on where calls may fail: a failed call changes no month that can be read, a
successful one adds its mark to what could be read, and a purge spares the months from its own on.
Months are told apart by their texts, so this is about months whose texts have one width.

* `Backend.reading`: what a month reads as in a state.
* `Backend.Durable`: the law.
-/

namespace OvertimeNotice

/-- The marks of an answer; none if there is none. -/
def readMarks (answer : Except Failure (List Mark)) : List Mark := answer.toOption.getD []

@[simp] theorem readMarks_ok (es : List Mark) : readMarks (.ok es) = es := rfl

@[simp] theorem readMarks_error (f : Failure) : readMarks (.error f) = [] := rfl

namespace Backend

variable {σ : Type}

/-- What a month reads as. -/
def reading (b : Backend σ) (month : Month) (s : σ) : Except Failure (List Mark) :=
  (b.load month s).1

/-- In the states `good`, which calls lead to again, no call loses a mark. -/
structure Durable (b : Backend σ) (good : σ → Prop) : Prop where
  load : ∀ {s : σ} (month : Month), good s → good (b.load month s).2 ∧
    ∀ m, b.reading m (b.load month s).2 = b.reading m s
  purge : ∀ {s : σ} {month : Month}, good s → month.IsCommon → good (b.purge month s).2 ∧
    ∀ m, m.IsCommon → month ≤ m → b.reading m (b.purge month s).2 = b.reading m s
  upsert_error : ∀ {s : σ} {e : Mark} {f : Failure}, good s → e.month.IsCommon →
    (b.upsert e s).1 = .error f → good (b.upsert e s).2 ∧
      ∀ m, m.IsCommon → b.reading m (b.upsert e s).2 = b.reading m s
  upsert_ok : ∀ {s : σ} {e : Mark}, good s → e.month.IsCommon → e.marker ≠ .level .none →
    (b.upsert e s).1 = .ok () → good (b.upsert e s).2 ∧
      (∀ m, m.IsCommon → m ≠ e.month → b.reading m (b.upsert e s).2 = b.reading m s) ∧
      ∃ es, b.reading e.month (b.upsert e s).2 = .ok es ∧
        ∀ x, x ∈ es ↔ x = e ∨ x ∈ readMarks (b.reading e.month s)

end Backend

end OvertimeNotice
