import OvertimeNotice.Files.TreeLemmas

/-!
# Nodes of file trees

A tree is known by what stands at each place. Whatever stands somewhere stands in a directory, so a
new content for a file, and a new node in a directory, change one place and no other.

* `Tree.node?_tail`: what stands somewhere stands in a directory.
* `Tree.node?_set_file`, `Tree.node?_set_new`: the two ways to set a node.
* `Tree.Agree`: trees that are the same at some places.
-/

namespace OvertimeNotice

namespace Tree

variable {t u v : Tree} {p q : Place}

theorem isTop_tail (h : q.isTop = true) : Place.isTop q.tail = true := by
  cases q with
  | nil => rfl
  | cons s q =>
    simp only [Place.isTop, Bool.or_eq_true, beq_iff_eq, List.all_eq_true] at h ⊢
    rcases h with h | h
    · obtain ⟨-, rfl⟩ := List.cons_eq_cons.mp h
      exact .inr (by simp)
    · exact .inr fun x hx => h x (List.mem_cons_of_mem _ hx)

/-- Whatever stands somewhere stands in a directory. -/
theorem node?_tail {n : Node} (h : t.node? q = some n) : t.node? q.tail = some .directory := by
  by_cases htail : Place.isTop q.tail = true
  · exact node?_of_isTop t htail
  · have hq : q.isTop = false := by
      rw [← Bool.not_eq_true]
      exact fun hq => htail (isTop_tail hq)
    rw [node?_eq_find? t hq] at h
    rw [node?_eq_find? t (Bool.not_eq_true _ ▸ htail)]
    cases q with
    | nil => exact absurd rfl htail
    | cons s q =>
      rw [List.reverse_cons, Branch.find?_append] at h
      rw [List.tail_cons]
      cases hf : Branch.find? q.reverse t.root with
      | none => rw [hf] at h; exact nomatch h
      | some b =>
        cases b with
        | directory es => rfl
        | file c => rw [hf] at h; exact nomatch h

/-- Directories stand all the way above. -/
theorem node?_above {n : Node} {r : Place} (h : t.node? q = some n) (hr : r <:+ q.tail) :
    t.node? r = some .directory := by
  obtain ⟨front, hfront⟩ := hr
  induction front generalizing q n with
  | nil =>
    rw [List.nil_append] at hfront
    rw [hfront]
    exact node?_tail h
  | cons s front ih =>
    refine ih (node?_tail h) ?_
    rw [← hfront]
    rfl

theorem isTop_of_file {c : Content} (h : t.node? q = some (.file c)) : q.isTop = false := by
  rw [← Bool.not_eq_true]
  intro hq
  rw [node?_of_isTop t hq] at h
  exact nomatch h

theorem isTop_of_none (h : t.node? q = none) : q.isTop = false := by
  rw [← Bool.not_eq_true]
  intro hq
  rw [node?_of_isTop t hq] at h
  exact nomatch h

/-- A file gets another content. -/
theorem node?_set_file {c : Content} (h : t.node? q = some (.file c)) (n : Node) (r : Place) :
    (t.set q n).node? r = if r = q then some n else t.node? r :=
  node?_set t (isTop_of_file h) (node?_tail h) (by rw [h]; simp) r

/-- Something new comes to a directory. -/
theorem node?_set_new (h : t.node? q = none) (up : t.node? q.tail = some .directory) (n : Node)
    (r : Place) : (t.set q n).node? r = if r = q then some n else t.node? r :=
  node?_set t (isTop_of_none h) up (by rw [h]; simp) r

/-! ## Trees that are the same at some places -/

/-- The trees have the same at the places `K`. -/
def Agree (K : Place → Prop) (t u : Tree) : Prop := ∀ q, K q → u.node? q = t.node? q

variable {K L : Place → Prop}

theorem Agree.refl (K : Place → Prop) (t : Tree) : Agree K t t := fun _ _ => rfl

theorem Agree.trans (h : Agree K t u) (h' : Agree K u v) : Agree K t v :=
  fun q hq => (h' q hq).trans (h q hq)

theorem Agree.mono (h : Agree K t u) (hL : ∀ q, L q → K q) : Agree L t u :=
  fun q hq => h q (hL q hq)

theorem agree_set_file {c : Content} (h : t.node? p = some (.file c)) (n : Node) :
    Agree (· ≠ p) t (t.set p n) := fun q hq => by
  rw [node?_set_file h, if_neg hq]

theorem agree_set_new (h : t.node? p = none) (up : t.node? p.tail = some .directory) (n : Node) :
    Agree (· ≠ p) t (t.set p n) := fun q hq => by
  rw [node?_set_new h up, if_neg hq]

theorem agree_erase {c : Content} (h : t.node? p = some (.file c)) :
    Agree (· ≠ p) t (t.erase p) := fun q hq => by
  rw [node?_erase t h, if_neg hq]

end Tree

end OvertimeNotice
