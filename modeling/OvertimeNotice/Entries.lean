/-!
# Lists of entries

A list of pairs read as a map: of several entries under one key the first counts.

* `lookup_entry`, `lookup_filter_keys`: what is found behind an entry, and among some of the keys.
-/

namespace OvertimeNotice

namespace Entries

variable {κ α : Type} [BEq κ] [LawfulBEq κ]

theorem lookup_entry [DecidableEq κ] (a k : κ) (v : α) (l : List (κ × α)) :
    ((k, v) :: l).lookup a = if a = k then some v else l.lookup a := by
  by_cases h : a = k
  · simp [h]
  · simp [List.lookup_cons, beq_eq_false_iff_ne.mpr h, h]

/-- Dropping keys hides what stood under them and nothing else. -/
theorem lookup_filter_keys (p : κ → Bool) (a : κ) (l : List (κ × α)) :
    (l.filter fun e => p e.1).lookup a = if p a then l.lookup a else none := by
  induction l with
  | nil => simp
  | cons e es ih =>
    obtain ⟨k, v⟩ := e
    by_cases h : a = k
    · subst h; cases hp : p a <;> simp [hp, ih]
    · have hk : (a == k) = false := beq_eq_false_iff_ne.mpr h
      cases hp : p k <;> simp [hp, List.lookup_cons, hk, ih]

end Entries

end OvertimeNotice
