import OvertimeNotice.Proofs.State.FlagStore
import OvertimeNotice.Proofs.State.Opening
import OvertimeNotice.Runner

/-!
# Where an invocation keeps its files

The database, the directory of flag files and the cache directory are given by paths. They keep out
of each other's way if what two of them have to do with is no more than directories above both.

* `Path.Touches`: the places that a path has to do with; `Path.touches_iff`: for a path that never
  goes up, those above, at and below its end.
* `Settings.Apart`: settings whose paths keep out of each other's way; `Settings.apart_of_clear`:
  paths that never go up do so if none ends above another; `Settings.agree_of_below`: what may
  change besides.
-/

namespace OvertimeNotice

namespace Path

/-- The places that a path has to do with: those on its way, and those above, at and below its
end. -/
def Touches (p : Path) (q : Place) : Prop := q ∈ p.passes ∨ q <:+ p.place ∨ p.place <:+ q

theorem touches_of_below {p : Path} {q : Place} (h : p.place <:+ q) : p.Touches q := .inr (.inr h)

theorem touches_of_passes {p : Path} {q : Place} (h : q ∈ p.passes) : p.Touches q := .inl h

/-! ## Paths that never go up -/

theorem slash_not_mem_pieces {cs piece : List Char} (h : piece ∈ pieces cs) : '/' ∉ piece := by
  induction cs generalizing piece with
  | nil =>
    rw [List.mem_singleton.mp h]
    exact List.not_mem_nil
  | cons c cs ih =>
    rw [pieces] at h
    split at h
    · rcases List.mem_cons.mp h with rfl | h
      · exact List.not_mem_nil
      · exact ih h
    · rename_i hc
      split at h
      · rw [List.mem_singleton.mp h, List.mem_singleton]
        exact Ne.symm hc
      · rename_i first rest hpieces
        rw [hpieces] at ih
        rcases List.mem_cons.mp h with rfl | h
        · rw [List.mem_cons, not_or]
          exact ⟨Ne.symm hc, ih List.mem_cons_self⟩
        · exact ih (List.mem_cons_of_mem _ h)

theorem root_not_mem_steps (cs : List Char) : root ∉ (pieces cs).map String.ofList := by
  intro h
  obtain ⟨piece, hpiece, he⟩ := List.mem_map.mp h
  rw [String.ext_iff, String.toList_ofList] at he
  refine slash_not_mem_pieces hpiece ?_
  rw [he]
  decide

theorem suffix_follow {s : String} (q : Place) (hup : s ≠ upward) (hroot : s ≠ root) :
    q <:+ q.follow s := by
  rw [Place.follow, if_neg hup, if_neg hroot]
  split
  · exact List.suffix_refl q
  · exact List.suffix_cons s q

theorem suffix_of_mem_passedFrom {p : Path} {q r : Place} (hup : upward ∉ p) (hroot : root ∉ p)
    (h : r ∈ passedFrom q p) : r <:+ p.foldl Place.follow q := by
  induction p generalizing q r with
  | nil =>
    rw [List.mem_singleton.mp h]
    exact List.suffix_refl q
  | cons s p ih =>
    rw [List.mem_cons, not_or] at hup hroot
    rcases List.mem_cons.mp h with rfl | h
    · have hnext : r.follow s ∈ passedFrom (r.follow s) p := by cases p <;> simp [passedFrom]
      have hrest := ih hup.2 hroot.2 hnext
      exact (suffix_follow r (Ne.symm hup.1) (Ne.symm hroot.1)).trans hrest
    · exact ih hup.2 hroot.2 h

/-- A path that never goes up has to do with the places above, at and below its end. -/
theorem touches_iff {text : String} (hup : upward ∉ ofText text) {q : Place} :
    (ofText text).Touches q ↔ q <:+ (ofText text).place ∨ (ofText text).place <:+ q := by
  refine ⟨?_, .inr⟩
  rintro (h | h)
  · left
    revert hup h
    rw [ofText]
    split
    · intro _ h
      rw [List.mem_singleton.mp h]
      exact List.nil_suffix
    · intro hup h
      have hroot := root_not_mem_steps text.toList
      split at hup
      · -- the step to the root goes down from the working directory
        rename_i hslash
        rw [if_pos hslash, List.singleton_append] at h ⊢
        rw [List.singleton_append, List.mem_cons, not_or] at hup
        rcases List.mem_cons.mp h with rfl | h
        · exact List.nil_suffix
        · have hrest := suffix_of_mem_passedFrom hup.2 hroot h
          exact hrest
      · rename_i hslash
        rw [if_neg hslash] at h ⊢
        exact suffix_of_mem_passedFrom hup hroot h
  · exact h

end Path

/-- Neither place is the other or above it. -/
def Place.Clear (p q : Place) : Prop := ¬p <:+ q ∧ ¬q <:+ p

theorem Place.Clear.symm {p q : Place} (h : p.Clear q) : q.Clear p := ⟨h.2, h.1⟩

instance (p q : Place) : Decidable (p.Clear q) := instDecidableAnd

namespace Settings

def databasePath (s : Settings) : Path := Path.ofText s.database

def statePath (s : Settings) : Path := Path.ofText s.stateDir

def cachePath (s : Settings) : Path := Path.ofText s.cacheDir

/-- Where the file of the database is. -/
def home (s : Settings) : Place := s.databasePath.place

/-- The store of flag files. -/
def store (s : Settings) : FlagFiles := { dir := s.stateDir }

/-- The places that the database has to do with, those of the files beside it included. -/
def DatabaseTouches (s : Settings) (q : Place) : Prop :=
  s.databasePath.Touches q ∨ q ∈ s.home.family

/-- The database is named by the path of a file, and what two of the paths have to do with lies
above the ends of both. -/
structure Apart (s : Settings) : Prop where
  named : World.NamesFile s.database
  /-- The file of the database is no step on the way to it. -/
  arrives : s.home ∉ s.databasePath.passes.dropLast
  database_state : ∀ q, s.DatabaseTouches q → s.statePath.Touches q →
    q <:+ s.home.tail ∧ q <:+ s.statePath.place.tail
  database_cache : ∀ q, s.DatabaseTouches q → s.cachePath.Touches q →
    q <:+ s.home.tail ∧ q <:+ s.cachePath.place.tail
  state_cache : ∀ q, s.statePath.Touches q → s.cachePath.Touches q →
    q <:+ s.statePath.place.tail ∧ q <:+ s.cachePath.place.tail

variable {s : Settings} {q : Place}

theorem not_suffix_tail {p q : Place} (hp : p ≠ []) (h : p <:+ q) : ¬q <:+ p.tail := by
  intro ht
  have h₁ := h.length_le
  have h₂ := ht.length_le
  have h₃ := List.length_pos_iff.mpr hp
  rw [List.length_tail] at h₂
  omega

namespace Apart

theorem not_suffix_of_mem_family (h : s.home ≠ []) (hq : q ∈ s.home.family) :
    ¬q <:+ s.home.tail := by
  have hlength : q.length = s.home.length := by
    rcases Place.mem_family.mp hq with rfl | rfl | rfl | rfl
    · rfl
    all_goals cases s.home <;> rfl
  intro ht
  have h₂ := ht.length_le
  have h₃ := List.length_pos_iff.mpr h
  rw [List.length_tail] at h₂
  omega

/-- The files of the database are not in the way of flag files. -/
theorem not_state_of_family (ha : s.Apart) (h : s.home ≠ []) (hq : q ∈ s.home.family) :
    ¬s.statePath.Touches q := fun hs =>
  not_suffix_of_mem_family h hq (ha.database_state q (.inr hq) hs).1

theorem not_cache_of_family (ha : s.Apart) (h : s.home ≠ []) (hq : q ∈ s.home.family) :
    ¬s.cachePath.Touches q := fun hs =>
  not_suffix_of_mem_family h hq (ha.database_cache q (.inr hq) hs).1

theorem statePlace_ne (ha : s.Apart) (h : s.home ≠ []) : s.statePath.place ≠ [] := by
  intro he
  refine ha.not_state_of_family h (List.mem_cons_self ..) (Path.touches_of_below ?_)
  rw [he]
  exact List.nil_suffix

theorem statePath_ne (ha : s.Apart) (h : s.home ≠ []) : s.statePath ≠ [] := by
  intro he
  refine ha.statePlace_ne h ?_
  rw [he]
  rfl

/-- Nothing in the directory of flag files is in the way of the cache. -/
theorem not_cache_of_below (ha : s.Apart) (h : s.home ≠ []) (hq : s.statePath.place <:+ q) :
    ¬s.cachePath.Touches q := fun hc =>
  not_suffix_tail (ha.statePlace_ne h) hq
    (ha.state_cache q (Path.touches_of_below hq) hc).1

end Apart

/-! ## Settings with such paths -/

theorem suffix_tail_of_clear {p r : Place} (hpr : p.Clear r) (h : q <:+ p ∨ p <:+ q)
    (h' : q <:+ r ∨ r <:+ q) : q <:+ p.tail ∧ q <:+ r.tail := by
  have hup : ∀ {p r : Place}, p.Clear r → q <:+ p → q <:+ r → q <:+ p.tail := by
    intro p r hclear hp hr
    cases p with
    | nil => exact absurd List.nil_suffix hclear.1
    | cons name p =>
      rcases List.suffix_cons_iff.mp hp with rfl | hp
      · exact absurd hr hclear.1
      · exact hp
  rcases h with h | h
  · rcases h' with h' | h'
    · exact ⟨hup hpr h h', hup hpr.symm h' h⟩
    · exact absurd (h'.trans h) hpr.2
  · rcases h' with h' | h'
    · exact absurd (h.trans h') hpr.1
    · rcases List.suffix_or_suffix_of_suffix h h' with hs | hs
      · exact absurd hs hpr.1
      · exact absurd hs hpr.2

/-- Paths that never go up keep out of each other's way if none ends above another. -/
theorem apart_of_clear (hnamed : World.NamesFile s.database)
    (harrives : s.home ∉ s.databasePath.passes.dropLast) (hd : Path.upward ∉ s.databasePath)
    (hs : Path.upward ∉ s.statePath) (hc : Path.upward ∉ s.cachePath)
    (hds : ∀ q ∈ s.home.family, q.Clear s.statePath.place)
    (hdc : ∀ q ∈ s.home.family, q.Clear s.cachePath.place)
    (hsc : s.statePath.place.Clear s.cachePath.place) : s.Apart := by
  have hdatabase : ∀ {q r : Place}, (∀ q ∈ s.home.family, q.Clear r) → s.DatabaseTouches q →
      (q <:+ r ∨ r <:+ q) → q <:+ s.home.tail ∧ q <:+ r.tail := by
    rintro q r hclear (h | h) hr
    · exact suffix_tail_of_clear (hclear _ List.mem_cons_self) ((Path.touches_iff hd).mp h) hr
    · exact suffix_tail_of_clear (hclear _ List.mem_cons_self)
        (absurd hr (not_or.mpr (hclear q h))) hr
  exact {
    named := hnamed
    arrives := harrives
    database_state := fun q h h' => hdatabase hds h ((Path.touches_iff hs).mp h')
    database_cache := fun q h h' => hdatabase hdc h ((Path.touches_iff hc).mp h')
    state_cache := fun q h h' =>
      suffix_tail_of_clear hsc ((Path.touches_iff hs).mp h) ((Path.touches_iff hc).mp h') }

/-- What is below a place that is clear of a path has nothing to do with it. -/
theorem not_touches_of_below {p : Place} {text : String} (hup : Path.upward ∉ Path.ofText text)
    (hp : p.Clear (Path.ofText text).place) (hq : p <:+ q) : ¬(Path.ofText text).Touches q := by
  intro h
  rcases (Path.touches_iff hup).mp h with h | h
  · exact hp.1 (hq.trans h)
  · rcases List.suffix_or_suffix_of_suffix hq h with hs | hs
    · exact hp.1 hs
    · exact hp.2 hs

/-- Whatever changes below such a place, what the state is kept in has nothing to do with it. -/
theorem agree_of_below {p : Place} {t u : Tree} (hd : Path.upward ∉ s.databasePath)
    (hs : Path.upward ∉ s.statePath) (hdatabase : ∀ q ∈ s.home.family, p.Clear q)
    (hstate : p.Clear s.statePath.place) (h : Tree.Agree (fun q => ¬p <:+ q) t u) :
    Tree.Agree (fun q => s.DatabaseTouches q ∨ s.statePath.Touches q) t u := by
  refine h.mono fun q hq hbelow => ?_
  rcases hq with (hq | hq) | hq
  · exact not_touches_of_below hd (hdatabase _ List.mem_cons_self) hbelow hq
  · exact (hdatabase q hq).1 hbelow
  · exact not_touches_of_below hs hstate hbelow hq

/-- Settings for trials. -/
def sample : Settings :=
  { dataDir := "data", database := "state.db", backend := "file", stateDir := "flags"
    cacheDir := "cache", now := some "2026-10-05T09:00" }

theorem apart_sample : sample.Apart := by
  refine apart_of_clear ⟨by decide +kernel, by decide⟩ ?_ ?_ ?_ ?_ ?_ ?_ ?_ <;> decide

end Settings

end OvertimeNotice
