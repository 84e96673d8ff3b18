import Mathlib.Algebra.Group.Int.Defs
import OvertimeNotice.Json.Record
import OvertimeNotice.Proofs.Text.Maps

/-!
# Typed data from the values they were written as

One lemma for each way in which a part of a record is written: a value that may be missing, a list,
a set, a number.

* `Json.orNull?_nullable`, `Json.list?_map`, `Json.textSet?_texts`, `Json.textMap?_map`.
* `Json.Fields.required_self`, `Json.Fields.optional_self`: the fields of a record by name.
* `Json.fields?_object`: the fields of an object by its members.
-/

namespace OvertimeNotice

namespace Json

variable {α : Type}

/-! ## Parts -/

/-- A value that may be missing is read if it is never written as null. -/
theorem orNull?_nullable {write : α → Json} {read : Json → Option α} {a : Option α}
    (hread : ∀ x ∈ a, read (write x) = some x) (hnull : ∀ x ∈ a, write x ≠ .null) :
    (nullable write a).orNull? read = some a := by
  cases a with
  | none => rfl
  | some x =>
    rw [nullable, orNull?, hread x rfl]
    · rfl
    · exact fun h => hnull x rfl h

theorem list?_map {write : α → Json} {read : Json → Option α} {l : List α}
    (h : ∀ x ∈ l, read (write x) = some x) : (array (l.map write)).list? read = some l := by
  rw [list?]
  induction l with
  | nil => rfl
  | cons x xs ih =>
    rw [List.map_cons, List.mapM_cons, h x List.mem_cons_self,
      ih fun y hy => h y (List.mem_cons_of_mem _ hy)]
    rfl

theorem textSet?_texts (s : TextSet) : (texts s.toList).textSet? = some s := by
  have hl : (texts s.toList).list? text? = some s.toList := list?_map fun _ _ => rfl
  rw [textSet?, hl, Option.map_some, TextSet.ofList_toList]

theorem textMap?_map {write : α → Json} {read : Json → Option α} (m : TextMap α)
    (h : ∀ x, read (write x) = some x) :
    textMap? read (.object (m.toList.map fun e => (e.1, write e.2))) = some m := by
  have hl : ∀ l : List (String × α),
      (l.map fun e => (e.1, write e.2)).mapM (fun m => (read m.2).map fun a => (m.1, a)) =
        some l := by
    intro l
    induction l with
    | nil => rfl
    | cons e es ih =>
      rw [List.map_cons, List.mapM_cons, ih, h]
      rfl
  rw [textMap?, hl, Option.map_some, TextMap.ofList_toList]

theorem word?_nat (n : UInt32) : (nat n.toNat).word? = some n := by
  have hlt := n.toNat_lt
  have hrange : (0 : Int) ≤ n.toNat ∧ (n.toNat : Int) ≤ 4294967295 := by omega
  rw [word?, nat, integer?, if_pos hrange, Option.map_some, Int.toNat_natCast, UInt32.ofNat_toNat]

theorem int64?_integer {i : Int} (hlow : -2 ^ 63 ≤ i) (hhigh : i < 2 ^ 63) :
    (number (.integer i)).int64? = some i :=
  if_pos ⟨hlow, by omega⟩

theorem binary64?_real (x : Binary64) : (real x).binary64? = some x := rfl

/-! ## Fields -/

namespace Fields

variable {fs : Fields} {m n : String} {j : Json} {c : Cell} {f : Json → Option α}

theorem required_self : required ((n, .given j) :: fs) n f = f j := by
  simp [required, cell]

theorem required_of_ne (h : (n == m) = false) : required ((m, c) :: fs) n f = required fs n f := by
  simp [required, cell, List.lookup_cons, h]

theorem optional_self : optional ((n, .given j) :: fs) n f = j.orNull? f := by
  simp [optional, cell]

theorem optional_of_ne (h : (n == m) = false) : optional ((m, c) :: fs) n f = optional fs n f := by
  simp [optional, cell, List.lookup_cons, h]

end Fields

/-! ## The fields of an object -/

/-- What is given of a field. -/
def Cell.given? : Cell → Option Json
  | .given j => some j
  | _ => none

theorem fields?_object {names : List String} {members : List (String × Json)}
    (h : unrepeated names members = true) :
    ∃ fs, (object members).fields? names = some fs ∧
      ∀ n ∈ names, (fs.cell n).given? = members.lookup n := by
  refine ⟨_, if_pos h, fun n hn => ?_⟩
  rw [Fields.cell]
  induction names with
  | nil => exact nomatch hn
  | cons m names ih =>
    by_cases hnm : n = m
    · subst hnm
      rw [List.map_cons, List.lookup_cons_self, Option.getD_some]
      cases members.lookup n <;> rfl
    · rw [List.map_cons, Entries.lookup_entry, if_neg hnm]
      have h' : unrepeated names members = true := by
        rw [unrepeated, List.all_cons, Bool.and_eq_true] at h
        exact h.2
      exact ih h' ((List.mem_cons.mp hn).resolve_left hnm)

/-- No name occurs twice among the entries of a map. -/
theorem unrepeated_toList (m : TextMap Json) (names : List String) :
    unrepeated names m.toList = true := by
  refine List.all_eq_true.mpr fun n _ => decide_eq_true ?_
  have hkeys : m.toList.Pairwise fun a b => a.1 < b.1 := List.pairwise_map.mp m.ascending
  generalize m.toList = l at hkeys
  induction l with
  | nil => exact Nat.zero_le 1
  | cons e es ih =>
    obtain ⟨he, hes⟩ := List.pairwise_cons.mp hkeys
    by_cases hn : e.1 = n
    · have hno : es.filter (fun m => m.1 == n) = [] := by
        refine List.filter_eq_nil_iff.mpr fun f hf hfn => String.lt_irrefl n ?_
        have hlt := he f hf
        rwa [hn, beq_iff_eq.mp hfn] at hlt
      simp [hn, hno]
    · simpa [hn] using ih hes

end Json

end OvertimeNotice
