import Mathlib.Algebra.GroupWithZero.Nat
import Mathlib.Data.List.Induction
import OvertimeNotice.Text.Map

/-!
# What a map from texts lists

* `TextMap.mem_toList`: the entries are what is found under the keys.
* `TextMap.ofList_toList`: collecting the entries gives the map again.
* `TextMap.find?_ofList`: of several entries under a key the last counts.
* `TextMap.sum_insert`: what a new value adds to a total.
-/

namespace OvertimeNotice

namespace TextMap

variable {α : Type} {m : TextMap α} {k : String} {v : α}

theorem mem_of_lookup {l : List (String × α)} (h : l.lookup k = some v) : (k, v) ∈ l := by
  obtain ⟨l₁, l₂, rfl, -⟩ := List.lookup_eq_some_iff.mp h
  simp

theorem lookup_of_mem {l : List (String × α)} (hl : (l.map (·.1)).Pairwise (· < ·))
    (h : (k, v) ∈ l) : l.lookup k = some v := by
  induction l with
  | nil => exact nomatch h
  | cons e es ih =>
    obtain ⟨he, hes⟩ := List.pairwise_cons.mp hl
    rcases List.mem_cons.mp h with rfl | h
    · exact List.lookup_cons_self
    · have hlt : e.1 < k := he k (List.mem_map_of_mem h)
      rw [Entries.lookup_entry, if_neg (String.ne_of_lt hlt).symm, ih hes h]

theorem mem_toList : (k, v) ∈ m.toList ↔ m.find? k = some v :=
  ⟨lookup_of_mem m.ascending, mem_of_lookup⟩

theorem mem_keys : k ∈ m.keys ↔ ∃ v, m.find? k = some v := by
  simp only [keys, List.mem_map, Prod.exists, exists_and_right, exists_eq_right, mem_toList]

theorem insertEntry_of_all_lt {l : List (String × α)} (h : ∀ e ∈ l, e.1 < k) :
    insertEntry k v l = l ++ [(k, v)] := by
  induction l with
  | nil => rfl
  | cons e es ih =>
    have he := h e List.mem_cons_self
    rw [insertEntry, if_neg (String.lt_asymm he), if_neg (String.ne_of_lt he).symm,
      ih fun e he => h e (List.mem_cons_of_mem _ he), List.cons_append]

theorem toList_foldl_insert {l : List (String × α)} (hl : (l.map (·.1)).Pairwise (· < ·))
    (h : ∀ e ∈ m.toList, ∀ f ∈ l, e.1 < f.1) :
    (l.foldl (fun m e => m.insert e.1 e.2) m).toList = m.toList ++ l := by
  induction l generalizing m with
  | nil => simp
  | cons e es ih =>
    obtain ⟨he, hes⟩ := List.pairwise_cons.mp hl
    have hm : (m.insert e.1 e.2).toList = m.toList ++ [e] :=
      insertEntry_of_all_lt fun f hf => h f hf e List.mem_cons_self
    rw [List.foldl_cons, ih hes, hm, List.append_assoc]
    · rfl
    · intro f hf g hg
      rw [hm, List.mem_append, List.mem_singleton] at hf
      rcases hf with hf | rfl
      · exact h f hf g (List.mem_cons_of_mem _ hg)
      · exact he g.1 (List.mem_map_of_mem hg)

theorem ofList_toList (m : TextMap α) : ofList m.toList = m := by
  have h : (ofList m.toList).toList = m.toList :=
    toList_foldl_insert m.ascending (by simp [empty])
  generalize ofList m.toList = n at h ⊢
  obtain ⟨l, hl⟩ := m
  obtain ⟨l', hl'⟩ := n
  obtain rfl : l' = l := h
  rfl

/-- Of several entries under a key the last is found. -/
theorem find?_ofList (l : List (String × α)) (k : String) :
    (ofList l).find? k = l.reverse.lookup k := by
  induction l using List.reverseRecOn with
  | nil => rfl
  | append_singleton l e ih =>
    rw [ofList, List.foldl_append, List.foldl_cons, List.foldl_nil, ← ofList, find?_insert, ih,
      List.reverse_append, List.reverse_singleton, List.singleton_append, Entries.lookup_entry]

theorem mem_keys_insert {a : String} : k ∈ (m.insert a v).keys ↔ k = a ∨ k ∈ m.keys := by
  rw [keys, insert, keys_insertEntry]
  exact mem_insertAscending

theorem mem_keys_ofList {l : List (String × α)} : k ∈ (ofList l).keys ↔ k ∈ l.map (·.1) := by
  induction l using List.reverseRecOn with
  | nil => exact Iff.rfl
  | append_singleton l e ih =>
    rw [ofList, List.foldl_append, List.foldl_cons, List.foldl_nil, ← ofList, mem_keys_insert, ih,
      List.map_append, List.mem_append, List.map_singleton, List.mem_singleton, or_comm]

theorem find?_ofList_of_last {before after : List (String × α)} (h : ∀ e ∈ after, e.1 ≠ k) :
    (ofList (before ++ (k, v) :: after)).find? k = some v := by
  have hafter : after.reverse.lookup k = none :=
    List.lookup_eq_none_iff.mpr fun e he => by simpa using (h e (List.mem_reverse.mp he)).symm
  rw [find?_ofList, List.reverse_append, List.reverse_cons, List.lookup_append,
    List.lookup_append, hafter, List.lookup_cons_self]
  rfl

/-! ## Totals -/

theorem lookup_eq_none_of_lt {l : List (String × α)} (h : ∀ e ∈ l, k < e.1) :
    l.lookup k = none := by
  refine Option.eq_none_iff_forall_ne_some.mpr fun v hv => ?_
  exact String.lt_irrefl k (h _ (mem_of_lookup hv))

theorem sum_insertEntry (f : α → Nat) {l : List (String × α)}
    (hl : (l.map (·.1)).Pairwise (· < ·)) :
    ((insertEntry k v l).map fun e => f e.2).sum + ((l.lookup k).map f).getD 0 =
      (l.map fun e => f e.2).sum + f v := by
  induction l with
  | nil => simp [insertEntry]
  | cons e es ih =>
    obtain ⟨he, hes⟩ := List.pairwise_cons.mp hl
    unfold insertEntry
    split
    · next hlt =>
      have hnone : (e :: es).lookup k = none := lookup_eq_none_of_lt <| List.forall_mem_cons.mpr
        ⟨hlt, fun f hf => String.lt_trans hlt (he f.1 (List.mem_map_of_mem hf))⟩
      rw [hnone]
      simp [Nat.add_comm]
    · split
      · next hkey =>
        rw [Entries.lookup_entry, if_pos hkey]
        simp only [List.map_cons, List.sum_cons, Option.map_some, Option.getD_some]
        omega
      · next hkey =>
        rw [Entries.lookup_entry, if_neg hkey]
        have hsum := ih hes
        simp only [List.map_cons, List.sum_cons]
        omega

/-- A value put under a key adds itself to a total over the values, and takes the older one away. -/
theorem sum_insert (m : TextMap α) (f : α → Nat) :
    ((m.insert k v).toList.map fun e => f e.2).sum + ((m.find? k).map f).getD 0 =
      (m.toList.map fun e => f e.2).sum + f v :=
  sum_insertEntry f m.ascending

end TextMap

end OvertimeNotice
