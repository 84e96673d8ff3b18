import OvertimeNotice.Proofs.Ledger.Standing

/-!
# Ledgers that differ in their warnings

A ledger answers from the state of its backend and the months it keeps. The warnings it has not
handed out yet make no difference.

* `Ledger.Alike`: ledgers that may differ in their warnings.
* `Ledger.Same`: equal answers and ledgers alike; `Alike.hasNotified`, `Alike.markNotified`: what is
  asked of ledgers alike gives the same.
-/

namespace OvertimeNotice

namespace Ledger

variable {σ α : Type} {b : Backend σ} {month : Month} {l l' l'' : Ledger σ}

/-- The ledgers are the same but for the warnings they have not handed out. -/
structure Alike (l l' : Ledger σ) : Prop where
  store : l.store = l'.store
  months : l.months = l'.months

/-- The same answer, and ledgers alike. -/
def Same (r r' : α × Ledger σ) : Prop := r.1 = r'.1 ∧ r.2.Alike r'.2

theorem Alike.refl (l : Ledger σ) : l.Alike l := ⟨rfl, rfl⟩

theorem Alike.trans (h : l.Alike l') (h' : l'.Alike l'') : l.Alike l'' :=
  ⟨h.store.trans h'.store, h.months.trans h'.months⟩

theorem Same.exists {r r' : α × Ledger σ} (h : Same r r') :
    ∃ a l l', r = (a, l) ∧ r' = (a, l') ∧ l.Alike l' :=
  ⟨r.1, r.2, r'.2, rfl, by rw [h.1], h.2⟩

/-- Handing out the warnings leaves a ledger as it was. -/
theorem alike_drain (l : Ledger σ) : l.drain.2.Alike l := ⟨rfl, rfl⟩

namespace Alike

theorem cached? (h : l.Alike l') (month : Month) : l.cached? month = l'.cached? month := by
  rw [Ledger.cached?, Ledger.cached?, h.months]

theorem standing (h : l.Alike l') (month : Month) : l.standing b month = l'.standing b month := by
  simp only [Ledger.standing, h.cached? month, h.store]

theorem loaded (h : l.Alike l') (month : Month) : (l.loaded b month).Alike (l'.loaded b month) := by
  simp only [Ledger.loaded, h.cached? month, h.store, h.months]
  cases l'.cached? month with
  | some ms => exact h
  | none =>
    rcases b.load month l'.store with ⟨f | es, s⟩
    · exact ⟨rfl, rfl⟩
    · exact ⟨rfl, rfl⟩

theorem setMarks (h : l.Alike l') (month : Month) (ms : MonthMarks) :
    (l.setMarks month ms).Alike (l'.setMarks month ms) := by
  refine ⟨h.store, ?_⟩
  rw [Ledger.setMarks, Ledger.setMarks, h.months]

theorem hasNotified (h : l.Alike l') (employee : String) (month : Month) (marker : Marker) :
    Same (l.hasNotified b employee month marker) (l'.hasNotified b employee month marker) := by
  rw [hasNotified_eq, hasNotified_eq, h.standing month]
  exact ⟨rfl, h.loaded month⟩

theorem markNotified (h : l.Alike l') (employee : String) (month : Month) (marker : Marker) :
    Same (l.markNotified b employee month marker) (l'.markNotified b employee month marker) := by
  have hloaded := h.loaded (b := b) month
  by_cases hm : (employee, marker) ∈ l.standing b month
  · rw [markNotified_of_mem hm, markNotified_of_mem (h.standing month ▸ hm)]
    exact ⟨rfl, hloaded⟩
  · rw [markNotified_of_not_mem hm, markNotified_of_not_mem (h.standing month ▸ hm),
      h.standing month, hloaded.store]
    exact ⟨rfl, rfl, (hloaded.setMarks month _).months⟩

end Alike

end Ledger

end OvertimeNotice
