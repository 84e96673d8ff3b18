import Mathlib.Data.Finset.Dedup
import Mathlib.Data.Finset.Union
import OvertimeNotice.Proofs.Ledger.Calls
import OvertimeNotice.Proofs.Ledger.Standing

/-!
# The cache of a ledger does not show

Over a backend that keeps a set of marks and never fails, a ledger answers as the set itself would,
although it loads each month once, writes only what is new, and forgets months when it is reset or
reopened.

* `Backend.Faithful`: the backend keeps a set of marks.
* `Ledger.Mirrors`: the ledger and its backend both agree with a set; `mirrors_perform`: one call
  keeps it so.
* `Ledger.sent_performAll`: every answer is the answer of the set.
-/

namespace OvertimeNotice

/-- The backend keeps the marks `held` and never fails, in the states `good`, which its operations
lead to again. Loading a month may also give marks of other months, and marks twice, in any
order. -/
structure Backend.Faithful {σ : Type} (b : Backend σ) (good : σ → Prop) (held : σ → Finset Mark) :
    Prop where
  load : ∀ {s : σ} (month : Month), good s → ∃ es s', b.load month s = (.ok es, s') ∧ good s' ∧
    held s' = held s ∧ ∀ e : Mark, e.month = month → (e ∈ es ↔ e ∈ held s)
  upsert : ∀ {s : σ} (e : Mark), good s → ∃ s', b.upsert e s = (.ok (), s') ∧ good s' ∧
    held s' = insert e (held s)
  purge : ∀ {s : σ} (month : Month), good s → ∃ n s', b.purge month s = (.ok n, s') ∧ good s' ∧
    held s' = {e ∈ held s | month ≤ e.month}

namespace LedgerCall

/-- A plain set of marks after a call. -/
def change (marks : Finset Mark) : LedgerCall → Finset Mark
  | mark e => insert e marks
  | reset month => {e ∈ marks | month ≤ e.month}
  | has _ | drain | reopen => marks

/-- What a plain set of marks answers to the questions among calls. -/
def sent (marks : Finset Mark) : List LedgerCall → List Bool
  | [] => []
  | has e :: cs => decide (e ∈ marks) :: sent marks cs
  | c :: cs => sent (c.change marks) cs

end LedgerCall

namespace Ledger

variable {σ : Type} {b : Backend σ} {good : σ → Prop} {held : σ → Finset Mark}

/-- The ledger takes every month to hold the marks of a set, and so does its backend. -/
structure Mirrors (b : Backend σ) (good : σ → Prop) (held : σ → Finset Mark)
    (marks : Finset Mark) (l : Ledger σ) : Prop where
  good_store : good l.store
  held_store : held l.store = marks
  standing : ∀ e : Mark, (e.employee, e.marker) ∈ l.standing b e.month ↔ e ∈ marks

theorem mem_standing_of_not_cached (hb : b.Faithful good held) {l : Ledger σ} (hg : good l.store)
    {e : Mark} (hc : l.cached? e.month = none) :
    (e.employee, e.marker) ∈ l.standing b e.month ↔ e ∈ held l.store := by
  obtain ⟨es, s', hl, -, -, hm⟩ := hb.load e.month hg
  rw [standing, hc, hl]
  exact mem_marksOf.trans (hm e rfl)

/-- A ledger whose kept months agree with its backend mirrors what the backend holds. -/
theorem mirrors_of_cached (hb : b.Faithful good held) {l : Ledger σ} (hg : good l.store)
    (h : ∀ e : Mark, ∀ ms, l.cached? e.month = some ms →
      ((e.employee, e.marker) ∈ ms ↔ e ∈ held l.store)) :
    Mirrors b good held (held l.store) l := by
  refine ⟨hg, rfl, fun e => ?_⟩
  cases hc : l.cached? e.month with
  | none => exact mem_standing_of_not_cached hb hg hc
  | some ms =>
    rw [standing_of_cached hc]
    exact h e ms hc

theorem mirrors_fresh (hb : b.Faithful good held) {s : σ} (hs : good s) :
    Mirrors b good held (held s) (fresh s) := by
  refine mirrors_of_cached (l := fresh s) hb hs fun e ms hc => ?_
  cases hc

/-- The state of the backend after a month was loaded. -/
theorem good_store_loaded (hb : b.Faithful good held) {l : Ledger σ} (hg : good l.store)
    (month : Month) :
    good (l.loaded b month).store ∧ held (l.loaded b month).store = held l.store := by
  obtain ⟨es, s', hl, hg', hh, -⟩ := hb.load month hg
  rw [store_loaded, hl]
  split
  · exact ⟨hg, rfl⟩
  · exact ⟨hg', hh⟩

variable {marks : Finset Mark} {l : Ledger σ}

theorem Mirrors.mem_of_cached (h : Mirrors b good held marks l) {e : Mark} {ms : MonthMarks}
    (hc : l.cached? e.month = some ms) : (e.employee, e.marker) ∈ ms ↔ e ∈ marks := by
  rw [← standing_of_cached (b := b) hc]
  exact h.standing e

theorem Mirrors.loaded (hb : b.Faithful good held) (h : Mirrors b good held marks l)
    (month : Month) : Mirrors b good held marks (l.loaded b month) := by
  obtain ⟨hg, hh⟩ := good_store_loaded hb h.good_store month
  have hs : held (l.loaded b month).store = marks := hh.trans h.held_store
  rw [← hs]
  refine mirrors_of_cached hb hg fun e ms hc => ?_
  rw [hs]
  by_cases hm : e.month = month
  · subst hm
    rw [cached?_loaded, Option.some.injEq] at hc
    rw [← hc]
    exact h.standing e
  · rw [cached?_loaded_of_ne b hm] at hc
    exact h.mem_of_cached hc

theorem Mirrors.marked (hb : b.Faithful good held) (h : Mirrors b good held marks l) (e : Mark) :
    Mirrors b good held (insert e marks)
      (l.markNotified b e.employee e.month e.marker).2 := by
  by_cases hm : (e.employee, e.marker) ∈ l.standing b e.month
  · rw [markNotified_of_mem hm, Finset.insert_eq_self.mpr ((h.standing e).mp hm)]
    exact h.loaded hb e.month
  · have hl := h.loaded hb e.month
    obtain ⟨s', hu, hg', hh'⟩ := hb.upsert e hl.good_store
    have hstore : (l.markNotified b e.employee e.month e.marker).2.store = s' := by
      rw [markNotified_of_not_mem hm]
      exact congrArg Prod.snd hu
    have hs : held (l.markNotified b e.employee e.month e.marker).2.store = insert e marks := by
      rw [hstore, hh', hl.held_store]
    rw [← hs]
    refine mirrors_of_cached hb (hstore ▸ hg') fun x ms hc => ?_
    rw [hs, Finset.mem_insert]
    by_cases hx : x.month = e.month
    · rw [hx, cached?_markNotified, if_neg hm, Option.some.injEq] at hc
      rw [← hc, ← hx, List.mem_cons, h.standing x]
      obtain ⟨i, m, k⟩ := x
      obtain ⟨i', m', k'⟩ := e
      simp_all
    · rw [cached?_markNotified_of_ne hx] at hc
      rw [h.mem_of_cached hc]
      exact ⟨.inr, fun ho => ho.resolve_left fun he => hx (he ▸ rfl)⟩

/-- A reset drops the older months on both sides; a younger one may stay in the cache. -/
theorem Mirrors.reset (hb : b.Faithful good held) (h : Mirrors b good held marks l)
    (month : Month) :
    Mirrors b good held {e ∈ marks | month ≤ e.month} (l.reset b month).2 := by
  obtain ⟨n, s', hp, hg', hh'⟩ := hb.purge month h.good_store
  have hstore : (l.reset b month).2.store = s' := congrArg Prod.snd hp
  have hs : held (l.reset b month).2.store = {e ∈ marks | month ≤ e.month} := by
    rw [hstore, hh', h.held_store]
  rw [← hs]
  refine mirrors_of_cached hb (hstore ▸ hg') fun e ms hc => ?_
  rw [cached?_reset] at hc
  split at hc
  · rename_i hm
    rw [hs, Finset.mem_filter, h.mem_of_cached hc]
    exact ⟨fun he => ⟨he, hm⟩, fun he => he.1⟩
  · cases hc

/-- One call leaves a mirror of the set after it. -/
theorem mirrors_perform (hb : b.Faithful good held) (h : Mirrors b good held marks l)
    (c : LedgerCall) : Mirrors b good held (c.change marks) (l.perform b c).2 := by
  cases c with
  | has e =>
    simp only [perform, hasNotified_eq, Prod.map_snd, id]
    exact h.loaded hb e.month
  | mark e => exact h.marked hb e
  | reset month => exact h.reset hb month
  | drain => exact ⟨h.good_store, h.held_store, h.standing⟩
  | reopen =>
    obtain ⟨hg, rfl, -⟩ := h
    exact mirrors_fresh hb hg

/-- A mirror answers as its set does. -/
theorem sent_perform (h : Mirrors b good held marks l) (e : Mark) :
    (l.perform b (.has e)).1 = .sent (decide (e ∈ marks)) := by
  simp only [perform, hasNotified_eq, Prod.map_fst, LedgerAnswer.sent.injEq]
  rw [Bool.eq_iff_iff, List.contains_iff_mem, decide_eq_true_iff]
  exact h.standing e

theorem sent_performAll_of_mirrors (hb : b.Faithful good held) (calls : List LedgerCall)
    (h : Mirrors b good held marks l) :
    (performAll b calls l).1.filterMap LedgerAnswer.sent? = LedgerCall.sent marks calls := by
  induction calls generalizing marks l with
  | nil => rfl
  | cons c cs ih =>
    have hc := ih (mirrors_perform hb h c)
    cases c with
    | has e =>
      simp only [performAll, List.filterMap_cons, sent_perform h e, LedgerAnswer.sent?,
        LedgerCall.sent]
      exact congrArg _ hc
    | mark e => exact hc
    | reset month => exact hc
    | drain => exact hc
    | reopen => exact hc

/-- **The cache is transparent.** Over a faithful backend, the answers of a new ledger about marks
are those of a plain set that starts with what the backend holds, whatever the calls and their
order. -/
theorem sent_performAll (hb : b.Faithful good held) {s : σ} (hs : good s)
    (calls : List LedgerCall) :
    (performAll b calls (fresh s)).1.filterMap LedgerAnswer.sent? =
      LedgerCall.sent (held s) calls :=
  sent_performAll_of_mirrors hb calls (mirrors_fresh hb hs)

end Ledger

/-! ## The backend in memory -/

/-- Nothing fails. -/
def MemoryMarks.isSound (s : MemoryMarks) : Prop :=
  s.failRead = false ∧ s.failWrite = false ∧ s.failPurge = false

/-- The backend in memory is faithful as long as nothing is made to fail. -/
theorem Backend.memory_faithful :
    Backend.memory.Faithful MemoryMarks.isSound fun s => s.marks.toFinset where
  load {s} month hs := by
    have h : memory.load month s = (.ok s.marks, s) := by simp [memory, hs.1]
    exact ⟨s.marks, s, h, hs, rfl, fun e _ => List.mem_toFinset.symm⟩
  upsert {s} e hs := by
    have h : memory.upsert e s = (.ok (), { s with marks := s.marks ++ [e] }) := by
      simp [memory, hs.2.1]
    refine ⟨_, h, hs, ?_⟩
    ext x
    simp
  purge {s} month hs := by
    let kept := s.marks.filter fun e => decide (month ≤ e.month)
    have h : memory.purge month s =
        (.ok (s.marks.length - kept.length), { s with marks := kept }) := by
      simp [memory, hs.2.2, kept]
    refine ⟨_, _, h, hs, ?_⟩
    ext x
    simp [kept]

namespace Ledger

private def august : Month := ⟨2026, 8, by decide, by decide⟩

private def september : Month := ⟨2026, 9, by decide, by decide⟩

/-- A mark of an older month is there, then dropped; a new one outlasts its ledger. -/
theorem sent_performAll_memory :
    let old : Mark := ⟨"1001", august, .level .p90⟩
    let new : Mark := ⟨"1001", september, .selfEscalation⟩
    let s : MemoryMarks := { MemoryMarks.empty with marks := [old, old] }
    s.isSound ∧
      (performAll Backend.memory
          [.has old, .has new, .mark new, .reset september, .has old, .reopen, .has new]
          (fresh s)).1.filterMap LedgerAnswer.sent? = [true, false, false, true] := by
  refine ⟨⟨rfl, rfl, rfl⟩, ?_⟩
  rw [sent_performAll Backend.memory_faithful ⟨rfl, rfl, rfl⟩]
  decide

end Ledger

end OvertimeNotice
