import Mathlib.Data.List.Induction
import OvertimeNotice.Proofs.Ledger.Keeping
import OvertimeNotice.Proofs.State.Honest

/-!
# What a successful mark means

A mark that succeeds is stored, unless the ledger kept it before. It may keep a mark that could not
be written, and then does not write it again until it is told to forget the month.

* `Backend.Truthful`: the backend stores what it lists, and what it was told with success.
* `Ledger.Backed`: the marks that a ledger keeps are stored or lost; `Backed.perform`: one call
  keeps it so.
* `Ledger.stored_or_unwritten`: what is so after a mark that succeeds.
* `Ledger.retry_not_stored`: a mark that succeeds the second time and is not stored.
-/

namespace OvertimeNotice

/-- The backend stores what it lists and what it was told with success. It loses a mark only by a
purge of later months. Any call may fail. -/
structure Backend.Truthful {σ : Type} (b : Backend σ) (stored : σ → Mark → Prop) : Prop where
  load_ok : ∀ {s : σ} {month : Month} {es : List Mark}, (b.load month s).1 = .ok es →
    ∀ x ∈ es, x.month = month → stored s x
  load : ∀ {s : σ} (month : Month) {x : Mark}, stored s x → stored (b.load month s).2 x
  upsert_ok : ∀ {s : σ} {e : Mark}, (b.upsert e s).1 = .ok () → stored (b.upsert e s).2 e
  upsert : ∀ {s : σ} (e : Mark) {x : Mark}, stored s x → stored (b.upsert e s).2 x
  purge : ∀ {s : σ} {month : Month} {x : Mark}, month ≤ x.month → stored s x →
    stored (b.purge month s).2 x

theorem Backend.Honest.truthful {σ : Type} {b : Backend σ} {stored : σ → Mark → Prop}
    (hb : b.Honest stored) : b.Truthful stored where
  load_ok h x hx hm := (hb.load_ok h x hm).mp hx
  load month x := (hb.load _ month x).mpr
  upsert_ok h := (hb.upsert_ok h _).mpr (.inr rfl)
  upsert e x hx := (hb.upsert _ e x).mpr (.inl hx)
  purge hm := (hb.purge _ _ _ hm).mpr

namespace Ledger

variable {σ : Type} {b : Backend σ} {stored : σ → Mark → Prop} {lost lost' : Mark → Prop}
  {l : Ledger σ} {c : LedgerCall} {e : Mark}

/-! ## Marks that are kept and marks that are stored -/

/-- Every mark that the ledger keeps is stored in its backend, or is `lost`. -/
def Backed (stored : σ → Mark → Prop) (lost : Mark → Prop) (l : Ledger σ) : Prop :=
  ∀ x : Mark, (x.employee, x.marker) ∈ l.marks x.month → stored l.store x ∨ lost x

theorem backed_fresh (s : σ) : Backed stored lost (fresh s) := fun _ hx => nomatch hx

theorem Backed.mono (h : Backed stored lost l) (hlost : ∀ x, lost x → lost' x) :
    Backed stored lost' l := fun x hx => (h x hx).imp_right (hlost x)

/-- What is loaded is stored. -/
theorem Backed.loaded (hb : b.Truthful stored) (h : Backed stored lost l) (month : Month) :
    Backed stored lost (l.loaded b month) := by
  intro x hx
  cases hc : l.cached? month with
  | some ms =>
    rw [loaded_of_cached hc] at hx ⊢
    exact h x hx
  | none =>
    have hstore : (l.loaded b month).store = (b.load month l.store).2 := by
      rw [store_loaded, hc]
      rfl
    rw [hstore]
    by_cases hm : x.month = month
    · subst hm
      simp only [marks_loaded, standing, hc] at hx
      cases hl : (b.load x.month l.store).1 with
      | error f =>
        rw [hl] at hx
        cases hx
      | ok es =>
        rw [hl] at hx
        exact .inl (hb.load _ (hb.load_ok hl x (mem_marksOf.mp hx) rfl))
    · rw [marks, cached?_loaded_of_ne b hm] at hx
      exact (h x hx).imp_left (hb.load month)

/-- A mark is stored, or is lost where it could not be written. -/
theorem Backed.mark (hb : b.Truthful stored) (h : Backed stored lost l)
    (hfail : ∀ f, (l.perform b (.mark e)).1 = .marked (.error f) → lost e) :
    Backed stored lost (l.perform b (.mark e)).2 := by
  intro x hx
  have hloaded := h.loaded hb e.month x
  have hkept := mem_marks_markNotified.mp hx
  by_cases he : (e.employee, e.marker) ∈ l.standing b e.month
  · have hx : (x.employee, x.marker) ∈ (l.loaded b e.month).marks x.month := by
      rcases hkept with ⟨hm, hp⟩ | hx
      · rwa [hm, hp, marks_loaded]
      · exact hx
    rw [Ledger.perform, markNotified_of_mem he]
    exact hloaded hx
  · rw [Ledger.perform, markNotified_of_not_mem he] at hfail ⊢
    rcases hkept with ⟨hm, hp⟩ | hx
    · obtain rfl : x = e := by
        cases x
        cases e
        simp_all
      cases hu : (b.upsert x (l.loaded b x.month).store).1 with
      | ok => exact .inl (hb.upsert_ok hu)
      | error f => exact .inr (hfail f (congrArg LedgerAnswer.marked hu))
    · exact (hloaded hx).imp_left (hb.upsert e)

/-- One call keeps the marks of a ledger stored or lost, if what was lost stays so as long as its
month is spared, and a mark that cannot be written is lost. -/
theorem Backed.perform (hb : b.Truthful stored) (h : Backed stored lost l)
    (hlost : ∀ x, lost x → c.Spares x.month → lost' x)
    (hfail : ∀ e f, c = .mark e → (l.perform b c).1 = .marked (.error f) → lost' e) :
    Backed stored lost' (l.perform b c).2 := by
  cases c with
  | has e =>
    rw [Ledger.perform, hasNotified_eq]
    exact (h.mono fun x hx => hlost x hx trivial).loaded hb e.month
  | mark e => exact (h.mono fun x hx => hlost x hx trivial).mark hb fun f => hfail e f rfl
  | reset m =>
    intro x hx
    rw [marks, Ledger.perform] at hx
    simp only [Prod.map_snd, id, cached?_reset] at hx
    split at hx
    · rename_i hm
      exact (h x hx).imp (hb.purge hm) fun hx => hlost x hx hm
    · cases hx
  | drain => exact h.mono fun x hx => hlost x hx trivial
  | reopen => exact backed_fresh l.store

/-! ## Sequences of calls -/

/-- Among the calls, the mark was asked for once and could not be written, and no call after that
asks to forget its month. -/
def Unwritten (b : Backend σ) (l : Ledger σ) (calls : List LedgerCall) (e : Mark) : Prop :=
  ∃ earlier later f, calls = earlier ++ .mark e :: later ∧
    ((performAll b earlier l).2.perform b (.mark e)).1 = .marked (.error f) ∧
      ∀ c ∈ later, c.Spares e.month

variable {calls : List LedgerCall}

theorem Unwritten.concat (h : Unwritten b l calls e) (hc : c.Spares e.month) :
    Unwritten b l (calls ++ [c]) e := by
  obtain ⟨earlier, later, f, rfl, hf, hlater⟩ := h
  refine ⟨earlier, later ++ [c], f, by simp, hf, fun c' hc' => ?_⟩
  rcases List.mem_append.mp hc' with hc' | hc'
  · exact hlater c' hc'
  · exact List.mem_singleton.mp hc' ▸ hc

/-- After any calls, what a ledger keeps is stored, or was asked for and could not be written. -/
theorem backed_performAll (hb : b.Truthful stored) (s : σ) (calls : List LedgerCall) :
    Backed stored (Unwritten b (fresh s) calls) (performAll b calls (fresh s)).2 := by
  induction calls using List.reverseRecOn with
  | nil => exact backed_fresh s
  | append_singleton calls c ih =>
    rw [performAll_append]
    refine ih.perform hb (fun x hx => hx.concat) fun e f hc hf => ?_
    exact ⟨calls, [], f, by rw [hc], hc ▸ hf, by simp⟩

/-- A mark that was kept although it could not be written is kept still. -/
theorem Unwritten.mem_marks (h : Unwritten b l calls e) :
    (e.employee, e.marker) ∈ (performAll b calls l).2.marks e.month := by
  obtain ⟨earlier, later, f, rfl, -, hlater⟩ := h
  rw [performAll_append]
  refine keeps_performAll b hlater _ _ ?_
  exact mem_marks_markNotified.mpr (.inl ⟨rfl, rfl⟩)

/-- **What a successful mark means.** Whatever was asked of a ledger, and whichever reads and writes
failed, a mark that succeeds is stored, unless it was asked for before, could not be written, and
its month was not forgotten since. Then it always succeeds, and nothing is read or written. -/
theorem stored_or_unwritten (hb : b.Truthful stored) (s : σ) (before : List LedgerCall) (e : Mark) :
    let l := (performAll b before (fresh s)).2
    ((l.perform b (.mark e)).1 = .marked (.ok ()) →
      stored (l.perform b (.mark e)).2.store e ∨ Unwritten b (fresh s) before e) ∧
    (Unwritten b (fresh s) before e → l.perform b (.mark e) = (.marked (.ok ()), l)) := by
  intro l
  have hl : Backed stored (Unwritten b (fresh s) before) l := backed_performAll hb s before
  constructor
  · intro hok
    by_cases he : (e.employee, e.marker) ∈ l.standing b e.month
    · rw [perform, markNotified_of_mem he]
      exact hl.loaded hb e.month e (by rwa [marks_loaded])
    · rw [perform, markNotified_of_not_mem he] at hok ⊢
      exact .inl (hb.upsert_ok (LedgerAnswer.marked.inj hok))
  · intro h
    have hmem : (e.employee, e.marker) ∈ l.marks e.month := h.mem_marks
    have hc : ∃ ms, l.cached? e.month = some ms := by
      cases hc : l.cached? e.month with
      | none =>
        rw [marks, hc] at hmem
        cases hmem
      | some ms => exact ⟨ms, rfl⟩
    obtain ⟨ms, hms⟩ := hc
    rw [perform, markNotified_of_mem (mem_standing_of_mem_marks hmem), loaded_of_cached hms]
    rfl

private def failingWrites : MemoryMarks := { MemoryMarks.empty with failWrite := true }

private def octoberStep : Mark := ⟨"1001", (Month.of? 2026 10).getD default, .level .p90⟩

/-- A mark is stored where nothing fails, and is taken as sent where it could not be written. -/
theorem stored_or_unwritten_memory :
    octoberStep ∈ ((fresh .empty).perform .memory (.mark octoberStep)).2.store.marks ∧
      let l := (performAll .memory [.mark octoberStep] (fresh failingWrites)).2
      l.perform .memory (.mark octoberStep) = (.marked (.ok ()), l) := by
  have hb : Backend.memory.Truthful fun s x => x ∈ s.marks := Backend.memory_honest.truthful
  obtain ⟨hstored, -⟩ := stored_or_unwritten hb .empty [] octoberStep
  obtain ⟨-, hkept⟩ := stored_or_unwritten hb failingWrites [.mark octoberStep] octoberStep
  refine ⟨(hstored rfl).resolve_right ?_, hkept ⟨[], [], _, rfl, rfl, by simp⟩⟩
  rintro ⟨earlier, later, -, hcalls, -⟩
  exact absurd hcalls.symm (List.append_ne_nil_of_right_ne_nil _ (List.cons_ne_nil _ _))

/-- A mark that cannot be written succeeds the second time, and is not stored. -/
theorem retry_not_stored : (Backend.memory.Honest fun s x => x ∈ s.marks) ∧
    let r := performAll .memory [.mark octoberStep, .mark octoberStep] (fresh failingWrites)
    r.1 = [.marked (.error (.corruptState "disk full")), .marked (.ok ())] ∧
      octoberStep ∉ r.2.store.marks :=
  ⟨Backend.memory_honest, rfl, List.not_mem_nil⟩

end Ledger

end OvertimeNotice
