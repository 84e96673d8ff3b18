import Mathlib.Data.Finset.Card
import Mathlib.Data.List.Basic
import OvertimeNotice.Proofs.Calendar.MonthText
import OvertimeNotice.Proofs.State.Calls

/-!
# A plain set of marks

What a set of marks answers to the calls of a backend: a month lists its marks in order, and a purge
counts what it drops. Two backends that keep a set of marks answer alike.

* `BackendEvent.TrueOf`, `Told`: the answers of a set.
* `Told.unique`: there is one answer to each call.
* `Backend.Keeps`, `Backend.Keeps.told`: a backend that keeps a set answers as the set does.
-/

namespace OvertimeNotice

/-! ## Order -/

namespace Mark

/-- Month and marker read back from the texts they are stored as. -/
def IsCommon (x : Mark) : Prop := x.month.IsCommon ∧ x.marker ≠ .level .none

instance (x : Mark) : Decidable x.IsCommon := instDecidableAnd

/-- In the order of employees, and of the keys of markers for one employee. -/
def Before (x y : Mark) : Prop :=
  x.employee < y.employee ∨ x.employee = y.employee ∧ x.marker.key < y.marker.key

variable {x y : Mark}

theorem Before.asymm (h : Before x y) : ¬Before y x := by
  rintro (h' | ⟨he', h'⟩)
  · rcases h with h | ⟨he, -⟩
    · exact String.lt_asymm h h'
    · rw [he] at h'
      exact String.lt_irrefl _ h'
  · rcases h with h | ⟨-, h⟩
    · rw [he'] at h
      exact String.lt_irrefl _ h
    · exact String.lt_asymm h h'

theorem Before.ne (h : Before x y) : x ≠ y := by
  rintro rfl
  exact h.asymm h

end Mark

/-- The marks of a month, in order and each once. -/
structure Lists (marks : Finset Mark) (month : Month) (es : List Mark) : Prop where
  ordered : es.Pairwise Mark.Before
  mem : ∀ x, x ∈ es ↔ x ∈ marks ∧ x.month = month

namespace Lists

variable {marks : Finset Mark} {month : Month} {es es' : List Mark}

theorem nodup (h : Lists marks month es) : es.Nodup := h.ordered.imp Mark.Before.ne

/-- Order and members leave no choice. -/
theorem unique (h : Lists marks month es) (h' : Lists marks month es') : es = es' := by
  refine List.Perm.eq_of_pairwise (fun x y _ _ hxy hyx => absurd hyx hxy.asymm) h.ordered
    h'.ordered ?_
  rw [List.perm_ext_iff_of_nodup h.nodup h'.nodup]
  exact fun x => (h.mem x).trans (h'.mem x).symm

end Lists

/-- A list without repeats counts the set that it comes from. -/
theorem length_eq_card {α β : Type} [DecidableEq β] {l : List β} {S : Finset α} {f : α → β}
    (hl : l.Nodup) (hf : Set.InjOn f S) (h : ∀ r, r ∈ l ↔ ∃ x ∈ S, f x = r) :
    l.length = S.card := by
  rw [← List.toFinset_card_of_nodup hl, ← Finset.card_image_of_injOn hf]
  congr 1
  ext r
  rw [List.mem_toFinset, h, Finset.mem_image]

theorem Lists.length {marks : Finset Mark} {month : Month} {es : List Mark}
    (h : Lists marks month es) : es.length = {x ∈ marks | x.month = month}.card :=
  length_eq_card (f := id) h.nodup (Set.injOn_id _) fun x => by simp [h.mem]

/-! ## Calls -/

namespace BackendCall

/-- A set of marks after a call. -/
def change (marks : Finset Mark) : BackendCall → Finset Mark
  | load _ => marks
  | upsert e => insert e marks
  | purge month => {x ∈ marks | month ≤ x.month}

/-- All that a call names reads back from the texts it is stored as. -/
def IsCommon : BackendCall → Prop
  | load month => month.IsCommon
  | upsert e => e.IsCommon
  | purge month => month.IsCommon

instance (c : BackendCall) : Decidable c.IsCommon :=
  match c with
  | load month => inferInstanceAs (Decidable month.IsCommon)
  | upsert e => inferInstanceAs (Decidable e.IsCommon)
  | purge month => inferInstanceAs (Decidable month.IsCommon)

end BackendCall

/-- The answer is that of a set of marks. -/
inductive BackendEvent.TrueOf (marks : Finset Mark) : BackendEvent → Prop
  | load {month : Month} {es : List Mark} (h : Lists marks month es) :
    TrueOf marks (.load month (.ok es))
  | upsert (e : Mark) : TrueOf marks (.upsert e (.ok ()))
  | purge (month : Month) :
    TrueOf marks (.purge month (.ok {x ∈ marks | x.month < month}.card))

/-- The answers, one after the other, are those of a set of marks that takes part in the calls. -/
def Told (marks : Finset Mark) : List BackendEvent → Prop
  | [] => True
  | e :: es => e.TrueOf marks ∧ Told (e.call.change marks) es

theorem BackendEvent.TrueOf.unique {marks : Finset Mark} {e e' : BackendEvent} (h : e.TrueOf marks)
    (h' : e'.TrueOf marks) (hc : e.call = e'.call) : e = e' := by
  cases h with
  | load h =>
    cases h' with
    | load h' =>
      cases hc
      rw [h.unique h']
    | upsert => cases hc
    | purge => cases hc
  | upsert e =>
    cases h' with
    | load => cases hc
    | upsert => cases hc; rfl
    | purge => cases hc
  | purge month =>
    cases h' with
    | load => cases hc
    | upsert => cases hc
    | purge => cases hc; rfl

/-- There is one answer to each call. -/
theorem Told.unique {marks : Finset Mark} {es es' : List BackendEvent} (h : Told marks es)
    (h' : Told marks es') (hc : es.map BackendEvent.call = es'.map BackendEvent.call) :
    es = es' := by
  induction es generalizing marks es' with
  | nil => exact (List.map_eq_nil_iff.mp hc.symm).symm
  | cons e es ih =>
    cases es' with
    | nil => cases hc
    | cons e' es' =>
      obtain ⟨he, hes⟩ := h
      obtain ⟨he', hes'⟩ := h'
      obtain ⟨hcall, hcalls⟩ := List.cons_eq_cons.mp hc
      obtain rfl := he.unique he' hcall
      rw [ih hes hes' hcalls]

/-! ## Backends -/

/-- Where the states hold sets of marks, no call fails, and each answers as the set does and leads
to a state that holds what becomes of it. -/
structure Backend.Keeps {σ : Type} (b : Backend σ) (holds : σ → Finset Mark → Prop) : Prop where
  load : ∀ {s : σ} {marks : Finset Mark} {month : Month}, holds s marks → month.IsCommon →
    ∃ es s', b.load month s = (.ok es, s') ∧ Lists marks month es ∧ holds s' marks
  upsert : ∀ {s : σ} {marks : Finset Mark} {e : Mark}, holds s marks → e.IsCommon →
    ∃ s', b.upsert e s = (.ok (), s') ∧ holds s' (insert e marks)
  purge : ∀ {s : σ} {marks : Finset Mark} {month : Month}, holds s marks → month.IsCommon →
    ∃ s', b.purge month s = (.ok {x ∈ marks | x.month < month}.card, s') ∧
      holds s' {x ∈ marks | month ≤ x.month}

namespace Backend.Keeps

variable {σ : Type} {b : Backend σ} {holds : σ → Finset Mark → Prop} {s : σ}
  {marks : Finset Mark}

theorem perform (hb : b.Keeps holds) (hs : holds s marks) {c : BackendCall} (hc : c.IsCommon) :
    (b.perform c s).1.TrueOf marks ∧ holds (b.perform c s).2 (c.change marks) := by
  cases c with
  | load month =>
    obtain ⟨es, s', hl, hes, hs'⟩ := hb.load hs hc
    rw [Backend.perform, hl]
    exact ⟨.load hes, hs'⟩
  | upsert e =>
    obtain ⟨s', hu, hs'⟩ := hb.upsert hs hc
    rw [Backend.perform, hu]
    exact ⟨.upsert e, hs'⟩
  | purge month =>
    obtain ⟨s', hp, hs'⟩ := hb.purge hs hc
    rw [Backend.perform, hp]
    exact ⟨.purge month, hs'⟩

/-- The answers to any calls are those of the set that is held. -/
theorem told (hb : b.Keeps holds) (hs : holds s marks) {calls : List BackendCall}
    (hc : ∀ c ∈ calls, c.IsCommon) : Told marks (b.performAll calls s).1 := by
  induction calls generalizing s marks with
  | nil => trivial
  | cons c cs ih =>
    obtain ⟨htrue, hs'⟩ := hb.perform hs (hc c List.mem_cons_self)
    refine ⟨htrue, ?_⟩
    rw [call_perform]
    exact ih hs' fun c hmem => hc c (List.mem_cons_of_mem _ hmem)

end Backend.Keeps

end OvertimeNotice
