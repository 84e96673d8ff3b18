/-!
# Sets of texts

A finite set of texts, kept in ascending order of code points, so two sets with the same members
are equal and listing one is deterministic.

* `mem_insert`, `mem_ofList`, `mem_union`: membership after each operation.
* `ext`: a set is determined by its members.
-/

namespace OvertimeNotice

/-- `x` put in its place in an ascending list, once. -/
def insertAscending (x : String) : List String → List String
  | [] => [x]
  | y :: ys => if x < y then x :: y :: ys else if x = y then y :: ys else y :: insertAscending x ys

theorem mem_insertAscending {x a : String} {l : List String} :
    a ∈ insertAscending x l ↔ a = x ∨ a ∈ l := by
  induction l with
  | nil => simp [insertAscending]
  | cons y ys ih =>
    unfold insertAscending
    split
    · simp
    · split
      · next h => simp [h]
      · simp [ih, or_left_comm]

theorem pairwise_insertAscending {x : String} {l : List String} (h : l.Pairwise (· < ·)) :
    (insertAscending x l).Pairwise (· < ·) := by
  induction l with
  | nil => simp [insertAscending]
  | cons y ys ih =>
    obtain ⟨hy, hys⟩ := List.pairwise_cons.mp h
    unfold insertAscending
    split
    · next hlt =>
      refine List.pairwise_cons.mpr ⟨fun a ha => ?_, h⟩
      rcases List.mem_cons.mp ha with rfl | ha
      · exact hlt
      · exact String.lt_trans hlt (hy a ha)
    · split
      · exact h
      · next hnlt hne =>
        refine List.pairwise_cons.mpr ⟨fun a ha => ?_, ih hys⟩
        rcases mem_insertAscending.mp ha with rfl | ha
        · rcases Decidable.em (y < a) with h' | h'
          · exact h'
          · exact absurd (String.le_antisymm (String.not_lt.mp h') (String.not_lt.mp hnlt)) hne
        · exact hy a ha

theorem pairwise_nil : ([] : List String).Pairwise (· < ·) := .nil

/-- A finite set of texts. -/
structure TextSet where
  /-- The members, ascending. -/
  toList : List String
  ascending : toList.Pairwise (· < ·)

deriving instance DecidableEq for TextSet

namespace TextSet

/-- The set without members. -/
def empty : TextSet := ⟨[], pairwise_nil⟩

instance : Inhabited TextSet := ⟨empty⟩

/-- The set with `x` as a member besides. -/
def insert (s : TextSet) (x : String) : TextSet :=
  ⟨insertAscending x s.toList, pairwise_insertAscending s.ascending⟩

/-- The members of a list. -/
def ofList (l : List String) : TextSet := l.foldl insert empty

/-- The members of either set. -/
def union (s t : TextSet) : TextSet := t.toList.foldl insert s

/-- The set without `x`. -/
def erase (s : TextSet) (x : String) : TextSet :=
  ⟨s.toList.filter (· ≠ x), s.ascending.filter _⟩

def contains (s : TextSet) (x : String) : Bool := s.toList.contains x

def isEmpty (s : TextSet) : Bool := s.toList.isEmpty

instance : Membership String TextSet := ⟨fun s x => x ∈ s.toList⟩

instance (x : String) (s : TextSet) : Decidable (x ∈ s) :=
  inferInstanceAs (Decidable (x ∈ s.toList))

/-! ## Membership -/

theorem mem_def {x : String} {s : TextSet} : x ∈ s ↔ x ∈ s.toList := Iff.rfl

@[simp] theorem contains_iff {s : TextSet} {x : String} : s.contains x = true ↔ x ∈ s := by
  simp [contains, mem_def]

@[simp] theorem not_mem_empty {x : String} : x ∉ empty := by simp [mem_def, empty]

@[simp] theorem mem_insert {s : TextSet} {x a : String} : a ∈ s.insert x ↔ a = x ∨ a ∈ s :=
  mem_insertAscending

theorem mem_foldl_insert {l : List String} {s : TextSet} {a : String} :
    a ∈ l.foldl insert s ↔ a ∈ s ∨ a ∈ l := by
  induction l generalizing s with
  | nil => simp
  | cons x xs ih => simp only [List.foldl_cons, ih, mem_insert, List.mem_cons]; grind

@[simp] theorem mem_ofList {l : List String} {a : String} : a ∈ ofList l ↔ a ∈ l := by
  simp [ofList, mem_foldl_insert]

@[simp] theorem mem_union {s t : TextSet} {a : String} : a ∈ s.union t ↔ a ∈ s ∨ a ∈ t :=
  mem_foldl_insert

@[simp] theorem mem_erase {s : TextSet} {x a : String} : a ∈ s.erase x ↔ a ∈ s ∧ a ≠ x := by
  simp [erase, mem_def]

/-- Ascending lists with the same members are equal. -/
theorem eq_of_ascending {l m : List String} (hl : l.Pairwise (· < ·)) (hm : m.Pairwise (· < ·))
    (h : ∀ a, a ∈ l ↔ a ∈ m) : l = m := by
  induction l generalizing m with
  | nil =>
    cases m with
    | nil => rfl
    | cons b bs => exact absurd ((h b).mpr (List.mem_cons_self ..)) (by simp)
  | cons x xs ih =>
    cases m with
    | nil => exact absurd ((h x).mp (List.mem_cons_self ..)) (by simp)
    | cons b bs =>
      obtain ⟨hx, hxs⟩ := List.pairwise_cons.mp hl
      obtain ⟨hb, hbs⟩ := List.pairwise_cons.mp hm
      have hxb : x = b := by
        rcases List.mem_cons.mp ((h x).mp (List.mem_cons_self ..)) with h₁ | h₁
        · exact h₁
        · rcases List.mem_cons.mp ((h b).mpr (List.mem_cons_self ..)) with h₂ | h₂
          · exact h₂.symm
          · exact absurd (String.lt_trans (hx b h₂) (hb x h₁)) (String.lt_irrefl x)
      subst hxb
      congr 1
      refine ih hxs hbs fun a => ?_
      constructor
      · intro ha
        rcases List.mem_cons.mp ((h a).mp (List.mem_cons_of_mem _ ha)) with rfl | h₁
        · exact absurd (hx a ha) (String.lt_irrefl a)
        · exact h₁
      · intro ha
        rcases List.mem_cons.mp ((h a).mpr (List.mem_cons_of_mem _ ha)) with rfl | h₁
        · exact absurd (hb a ha) (String.lt_irrefl a)
        · exact h₁

/-- A set is determined by its members. -/
theorem ext {s t : TextSet} (h : ∀ a, a ∈ s ↔ a ∈ t) : s = t := by
  obtain ⟨l, hl⟩ := s
  obtain ⟨m, hm⟩ := t
  obtain rfl : l = m := eq_of_ascending hl hm h
  rfl

/-- Listing a set and collecting the list gives the set again. -/
@[simp] theorem ofList_toList (s : TextSet) : ofList s.toList = s :=
  ext fun _ => mem_ofList

end TextSet

end OvertimeNotice
