import OvertimeNotice.Proofs.Ledger.Standing
import OvertimeNotice.Proofs.State.Calls

/-!
# Backends that do as they answer

Any call may fail. One that succeeds has done what was asked, and one that fails has done nothing.

* `Backend.Honest`: the law, by way of the marks that are stored in a state.
* `Honest.recorded`: it holds of the backend with a record as well.
* `Honest.performAll`: a stored mark stays, unless its month is purged.
* `Honest.mem_standing`: what a ledger that can load a month takes it to hold.
* `Backend.memory_honest`: it holds of marks in memory.
-/

namespace OvertimeNotice

/-- The call does not purge a month. -/
def BackendCall.Spares (month : Month) : BackendCall → Prop
  | purge m => m ≤ month
  | _ => True

/-- The mark that was to be recorded, and whether that succeeded. -/
def BackendEvent.written? : BackendEvent → Option (Mark × Bool)
  | upsert e answer => some (e, answer.isOk)
  | _ => none

/-- The marks that were to be recorded, in order, and whether that succeeded. -/
def Recorded.writes {σ : Type} (s : Recorded σ) : List (Mark × Bool) :=
  s.events.filterMap BackendEvent.written?

namespace Backend

variable {σ : Type} {b : Backend σ} {stored : σ → Mark → Prop} {month : Month} {s : σ} {x : Mark}

/-- Of the marks `stored` in a state, a month that loads lists its own; what changes them is a mark
that is recorded with success, and a purge of months before theirs at most. -/
structure Honest (b : Backend σ) (stored : σ → Mark → Prop) : Prop where
  load_ok : ∀ {s : σ} {month : Month} {es : List Mark}, (b.load month s).1 = .ok es →
    ∀ x : Mark, x.month = month → (x ∈ es ↔ stored s x)
  load : ∀ (s : σ) (month : Month) (x : Mark), stored (b.load month s).2 x ↔ stored s x
  upsert_ok : ∀ {s : σ} {e : Mark}, (b.upsert e s).1 = .ok () →
    ∀ x, stored (b.upsert e s).2 x ↔ stored s x ∨ x = e
  upsert_error : ∀ {s : σ} {e : Mark} {f : Failure}, (b.upsert e s).1 = .error f →
    ∀ x, stored (b.upsert e s).2 x ↔ stored s x
  purge : ∀ (s : σ) (month : Month) (x : Mark), month ≤ x.month →
    (stored (b.purge month s).2 x ↔ stored s x)

namespace Honest

theorem upsert (hb : b.Honest stored) (s : σ) (e x : Mark) :
    stored (b.upsert e s).2 x ↔ stored s x ∨ (b.upsert e s).1.isOk = true ∧ x = e := by
  cases hu : (b.upsert e s).1 with
  | ok => rw [hb.upsert_ok hu, Except.isOk, Except.toBool, eq_self_iff_true, true_and]
  | error f =>
    rw [hb.upsert_error hu]
    exact (or_iff_left fun h => nomatch h.1).symm

theorem recorded (hb : b.Honest stored) : b.recorded.Honest fun s => stored s.state where
  load_ok h := hb.load_ok h
  load s := hb.load s.state
  upsert_ok h := hb.upsert_ok h
  upsert_error h := hb.upsert_error h
  purge s := hb.purge s.state

theorem perform (hb : b.Honest stored) {c : BackendCall} (hc : c.Spares x.month)
    (h : stored s x) : stored (b.perform c s).2 x := by
  cases c with
  | load m => exact (hb.load s m x).mpr h
  | upsert e => exact (hb.upsert s e x).mpr (.inl h)
  | purge m => exact (hb.purge s m x hc).mpr h

/-- A stored mark stays stored while its month is spared. -/
theorem performAll (hb : b.Honest stored) {calls : List BackendCall}
    (hc : ∀ c ∈ calls, c.Spares x.month) (h : stored s x) :
    stored (b.performAll calls s).2 x := by
  induction calls generalizing s with
  | nil => exact h
  | cons c cs ih =>
    obtain ⟨hc, hcs⟩ := List.forall_mem_cons.mp hc
    exact ih hcs (hb.perform hc h)

/-- A ledger that has yet to load a month, and can, takes it to hold what is stored. -/
theorem mem_standing (hb : b.Honest stored) {l : Ledger σ} (hc : l.cached? month = none)
    (hl : (b.load month l.store).1.isOk = true) (hx : x.month = month) :
    (x.employee, x.marker) ∈ l.standing b month ↔ stored l.store x := by
  cases he : (b.load month l.store).1 with
  | error f =>
    rw [he] at hl
    exact nomatch hl
  | ok es =>
    have hstanding : l.standing b month = Ledger.marksOf month es := by
      simp only [Ledger.standing, hc, he]
    rw [hstanding, Ledger.mem_marksOf, ← hb.load_ok he x hx, ← hx]

end Honest

/-- Marks in memory are what the backend says, whatever is made to fail. -/
theorem memory_honest : memory.Honest fun s x => x ∈ s.marks where
  load_ok {s _ es} h x _ := by
    simp only [memory] at h
    split at h
    · exact nomatch h
    · rw [Except.ok.inj h]
  load s month x := Iff.rfl
  upsert_ok {s e} h x := by
    simp only [memory] at h ⊢
    split at h
    · exact nomatch h
    · simp [*]
  upsert_error {s e f} h x := by
    simp only [memory] at h ⊢
    split at h
    · simp [*]
    · exact nomatch h
  purge s month x hx := by
    simp only [memory]
    split
    · rfl
    · simp [hx]

end Backend

end OvertimeNotice
