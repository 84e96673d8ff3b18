import OvertimeNotice.Proofs.Ledger.Calls
import OvertimeNotice.Proofs.Ledger.Standing

/-!
# What a ledger keeps of a month

Whatever its backend answers, a ledger drops no mark that it keeps of a month, unless it is told to
forget the month.

* `Ledger.Keeps`: the marks that one ledger keeps of a month, another keeps too.
* `keeps_perform`, `keeps_performAll`: calls that spare a month keep its marks.
-/

namespace OvertimeNotice

/-- The call does not ask to forget a month. -/
def LedgerCall.Spares (month : Month) : LedgerCall → Prop
  | reset m => m ≤ month
  | reopen => False
  | _ => True

instance (month : Month) (c : LedgerCall) : Decidable (c.Spares month) :=
  match c with
  | .reset m => inferInstanceAs (Decidable (m ≤ month))
  | .reopen => inferInstanceAs (Decidable False)
  | .has _ | .mark _ | .drain => inferInstanceAs (Decidable True)

namespace Ledger

variable {σ : Type} {b : Backend σ} {month m : Month} {l l' l'' : Ledger σ}

/-- No mark of a month is lost. -/
def Keeps (month : Month) (l l' : Ledger σ) : Prop := ∀ p ∈ l.marks month, p ∈ l'.marks month

theorem Keeps.refl (l : Ledger σ) : l.Keeps month l := fun _ h => h

theorem Keeps.trans (h : l.Keeps month l') (h' : l'.Keeps month l'') : l.Keeps month l'' :=
  fun p hp => h' p (h p hp)

theorem keeps_of_cached (h : l'.cached? month = l.cached? month) : l.Keeps month l' := by
  intro p hp
  rwa [marks, h]

/-- What is kept of a month stands. -/
theorem mem_standing_of_mem_marks {p : String × Marker} (h : p ∈ l.marks month) :
    p ∈ l.standing b month := by
  cases hc : l.cached? month with
  | none =>
    rw [marks, hc] at h
    exact absurd h List.not_mem_nil
  | some ms =>
    rw [marks, hc] at h
    rwa [standing_of_cached hc]

/-- All that stands of a month is kept once the month was loaded. -/
theorem mem_marks_of_mem_standing {p : String × Marker} (hc : (l.cached? month).isSome = true)
    (h : p ∈ l.standing b month) : p ∈ l.marks month := by
  obtain ⟨ms, hms⟩ := Option.isSome_iff_exists.mp hc
  rw [standing_of_cached hms] at h
  rwa [marks, hms]

/-! ## Operations -/

theorem keeps_loaded (b : Backend σ) (m : Month) (l : Ledger σ) : l.Keeps month (l.loaded b m) := by
  by_cases hm : month = m
  · subst hm
    intro p hp
    rw [marks_loaded]
    exact mem_standing_of_mem_marks hp
  · exact keeps_of_cached (cached?_loaded_of_ne b hm l)

theorem keeps_hasNotified {employee : String} {marker : Marker} {yes : Bool}
    (h : l.hasNotified b employee m marker = (yes, l')) : l.Keeps month l' := by
  rw [hasNotified_eq, Prod.mk.injEq] at h
  exact h.2 ▸ keeps_loaded b m l

/-- A mark takes nothing from what was loaded for it. -/
theorem keeps_loaded_markNotified (b : Backend σ) (e : Mark) (l : Ledger σ) :
    (l.loaded b e.month).Keeps month (l.markNotified b e.employee e.month e.marker).2 :=
  fun _ hp => mem_marks_markNotified.mpr (.inr hp)

theorem keeps_markNotified (b : Backend σ) (employee : String) (m : Month) (marker : Marker)
    (l : Ledger σ) : l.Keeps month (l.markNotified b employee m marker).2 :=
  (keeps_loaded b m l).trans (keeps_loaded_markNotified b ⟨employee, m, marker⟩ l)

theorem keeps_reset (b : Backend σ) (h : m ≤ month) (l : Ledger σ) :
    l.Keeps month (l.reset b m).2 :=
  keeps_of_cached ((cached?_reset b m l month).trans (if_pos h))

theorem keeps_perform (b : Backend σ) {c : LedgerCall} (h : c.Spares month) (l : Ledger σ) :
    l.Keeps month (l.perform b c).2 := by
  cases c with
  | has e =>
    rw [perform, hasNotified_eq]
    exact keeps_loaded b e.month l
  | mark e => exact keeps_markNotified b e.employee e.month e.marker l
  | reset m => exact keeps_reset b h l
  | drain => exact keeps_of_cached rfl
  | reopen => exact h.elim

/-- Calls that spare a month keep its marks. -/
theorem keeps_performAll {month : Month} (b : Backend σ) {calls : List LedgerCall}
    (h : ∀ c ∈ calls, c.Spares month) (l : Ledger σ) :
    l.Keeps month (performAll b calls l).2 := by
  induction calls generalizing l with
  | nil => exact .refl l
  | cons c cs ih =>
    obtain ⟨hc, hcs⟩ := List.forall_mem_cons.mp h
    exact (keeps_perform b hc l).trans (ih hcs _)

end Ledger

end OvertimeNotice
