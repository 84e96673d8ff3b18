import Mathlib.Data.List.Induction
import OvertimeNotice.Proofs.Plan.Addressed
import OvertimeNotice.Proofs.Text.Maps

/-!
# The entries for each recipient

* `Recipients.mem_all`: whom an entry goes to.
* `find?_digest`: under each recipient stand the entries that go to them, in plan order.
* `sum_length_digest`: how many there are under all recipients together.
* `digest_inverts`: the digest is the inverse of routing.
* `Together`: two entries that a recipient gets at once; `together_iff`.
-/

namespace OvertimeNotice

theorem Recipients.mem_all {rs : Recipients} {x : String} :
    x ∈ rs.all ↔ x ∈ rs.managers ∨ rs.employee = some x := by
  unfold all
  split
  · rename_i hnone
    simp [hnone]
  · rename_i own hown
    rw [TextSet.mem_insert, hown, Option.some.injEq, or_comm, eq_comm]

theorem Recipients.isEmpty_iff_all {rs : Recipients} :
    rs.isEmpty = true ↔ ∀ x, x ∉ rs.all := by
  simp only [isEmpty_iff, mem_all, not_or, forall_and, and_congr_right_iff]
  exact fun _ => Option.eq_none_iff_forall_ne_some

/-- The digest with one more entry, under each of the recipients. -/
theorem find?_file {e : PlanEntry} {recipients : List String} (hnodup : recipients.Nodup)
    (d : TextMap (List PlanEntry)) (x : String) :
    (recipients.foldl (fun d r => d.insert r ((d.find? r).getD [] ++ [e])) d).find? x =
      if x ∈ recipients then some ((d.find? x).getD [] ++ [e]) else d.find? x := by
  induction recipients generalizing d with
  | nil => rfl
  | cons r recipients ih =>
    obtain ⟨hr, hnodup⟩ := List.nodup_cons.mp hnodup
    rw [List.foldl_cons, ih hnodup, TextMap.find?_insert]
    by_cases hx : x = r
    · subst hx
      rw [if_neg hr, if_pos rfl, if_pos List.mem_cons_self]
    · simp [hx]

theorem TextSet.nodup_toList (s : TextSet) : s.toList.Nodup :=
  s.ascending.imp String.ne_of_lt

/-- The digest has, under each recipient, the entries that go to them, in plan order, and nothing
under anyone else. -/
theorem find?_digest (entries : List PlanEntry) (x : String) :
    let held := entries.filter fun e => x ∈ e.recipients.all
    (digest entries).find? x = if held = [] then none else some held := by
  induction entries using List.reverseRecOn with
  | nil => rfl
  | append_singleton entries e ih =>
    dsimp only at ih ⊢
    rw [digest, List.foldl_append, List.foldl_cons, List.foldl_nil, ← digest,
      find?_file (TextSet.nodup_toList _), ih, List.filter_append]
    by_cases hx : x ∈ e.recipients.all
    · rw [if_pos (TextSet.mem_def.mp hx)]
      by_cases hnil : entries.filter (fun e => x ∈ e.recipients.all) = [] <;> simp [hx, hnil]
    · rw [if_neg (mt TextSet.mem_def.mpr hx)]
      simp [hx]

/-- An entry adds as many items to the lists as it has recipients. -/
theorem sum_length_file {e : PlanEntry} (recipients : List String) (d : TextMap (List PlanEntry)) :
    ((recipients.foldl (fun d r => d.insert r ((d.find? r).getD [] ++ [e])) d).toList.map
        fun p => p.2.length).sum = (d.toList.map fun p => p.2.length).sum + recipients.length := by
  induction recipients generalizing d with
  | nil => rfl
  | cons r recipients ih =>
    have hsum := d.sum_insert (k := r) (v := (d.find? r).getD [] ++ [e]) List.length
    have hheld : ((d.find? r).getD []).length = ((d.find? r).map List.length).getD 0 := by
      cases d.find? r <;> rfl
    rw [List.length_append, hheld, List.length_singleton] at hsum
    rw [List.foldl_cons, ih, List.length_cons]
    omega

/-- The lists of the digest have as many items as the entries have recipients. -/
theorem sum_length_digest (entries : List PlanEntry) :
    ((digest entries).toList.map fun p => p.2.length).sum =
      (entries.map fun e => e.recipients.all.toList.length).sum := by
  induction entries using List.reverseRecOn with
  | nil => rfl
  | append_singleton entries e ih =>
    rw [digest, List.foldl_append, List.foldl_cons, List.foldl_nil, ← digest, sum_length_file, ih,
      List.map_append, List.sum_append, List.map_singleton, List.sum_singleton]

/-- **The digest is the inverse of routing.** It has the recipients of the entries as its keys, and
under each of them the entries that go to them, in plan order. No list is empty, only entries
without recipients stand under no key, and nothing is listed but once for each recipient of an
entry. -/
theorem digest_inverts (entries : List PlanEntry) :
    (∀ r, r ∈ (digest entries).keys ↔ ∃ e ∈ entries, r ∈ e.recipients.all) ∧
      (∀ r held, (digest entries).find? r = some held →
        held = entries.filter (fun e => r ∈ e.recipients.all) ∧ held ≠ []) ∧
      (∀ e ∈ entries, (∀ r held, (digest entries).find? r = some held → e ∉ held) ↔
        e.recipients.isEmpty = true) ∧
      ((digest entries).toList.map fun p => p.2.length).sum =
        (entries.map fun e => e.recipients.all.toList.length).sum := by
  have hheld : ∀ r held, (digest entries).find? r = some held ↔
      held = entries.filter (fun e => r ∈ e.recipients.all) ∧ held ≠ [] := by
    intro r held
    rw [find?_digest]
    grind
  refine ⟨fun r => ?_, fun r held => (hheld r held).mp, fun e he => ?_, sum_length_digest entries⟩
  · simp only [TextMap.mem_keys, hheld, exists_eq_left, ne_eq, List.filter_eq_nil_iff, not_forall,
      decide_eq_true_eq, not_not, exists_prop]
  · simp only [hheld, Recipients.isEmpty_iff_all]
    constructor
    · intro hnone r hr
      have hmem : e ∈ entries.filter fun e => r ∈ e.recipients.all :=
        List.mem_filter.mpr ⟨he, decide_eq_true hr⟩
      exact hnone r _ ⟨rfl, List.ne_nil_of_mem hmem⟩ hmem
    · rintro hnone r _ ⟨rfl, -⟩ hmem
      exact hnone r (of_decide_eq_true (List.mem_filter.mp hmem).2)

/-- Someone finds both entries under their name. -/
def Together (entries : List PlanEntry) (e e' : PlanEntry) : Prop :=
  ∃ key held, (digest entries).find? key = some held ∧ e ∈ held ∧ e' ∈ held

theorem together_iff {entries : List PlanEntry} {e e' : PlanEntry} : Together entries e e' ↔
    e ∈ entries ∧ e' ∈ entries ∧ ∃ key, key ∈ e.recipients.all ∧ key ∈ e'.recipients.all := by
  constructor
  · rintro ⟨key, held, hheld, he, he'⟩
    rw [find?_digest] at hheld
    split at hheld
    · exact nomatch hheld
    · obtain rfl := Option.some.inj hheld
      simp only [List.mem_filter, decide_eq_true_eq] at he he'
      exact ⟨he.1, he'.1, key, he.2, he'.2⟩
  · rintro ⟨he, he', key, hkey, hkey'⟩
    have hmem : e ∈ entries.filter fun e => key ∈ e.recipients.all :=
      List.mem_filter.mpr ⟨he, decide_eq_true hkey⟩
    refine ⟨key, _, (find?_digest entries key).trans (if_neg (List.ne_nil_of_mem hmem)), hmem, ?_⟩
    exact List.mem_filter.mpr ⟨he', decide_eq_true hkey'⟩

end OvertimeNotice
