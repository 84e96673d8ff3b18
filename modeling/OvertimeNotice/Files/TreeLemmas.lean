import OvertimeNotice.Files.Tree

/-!
# Changes and ways in file trees

* `Tree.node?_set`, `Tree.node?_erase`: what stands at a place after a change.
* `Tree.locate_eq_place`: a path that leads anywhere leads to the place that its steps spell.
* `Tree.locate_child`: a name in a directory leads to a place below it.
-/

namespace OvertimeNotice

/-! ## What stands at a place afterwards -/

namespace Tree

theorem node?_of_isTop (t : Tree) {q : Place} (h : q.isTop = true) :
    t.node? q = some .directory := by
  unfold node? branch?
  split
  · rfl
  · simp [h, Branch.node]

theorem node?_eq_find? (t : Tree) {q : Place} (h : q.isTop = false) :
    t.node? q = (Branch.find? q.reverse t.root).map Branch.node := by
  unfold node? branch?
  split
  · simp [*]
  · simp [h]

theorem isTop_of_append {a b : Place} (h : Place.isTop (a ++ b) = true) (hb : b ≠ []) :
    b.isTop = true := by
  cases a with
  | nil => exact h
  | cons s a =>
    simp only [Place.isTop, Bool.or_eq_true, beq_iff_eq, List.all_eq_true] at h ⊢
    rcases h with h | h
    · simp [hb] at h
    · exact .inr fun x hx => h x (by simp [hx])

theorem isTop_on_way {p q : Place} (h : q.reverse <+: p.reverse) (hp : p.isTop = true) :
    q.isTop = true := by
  obtain ⟨rest, hr⟩ := h
  by_cases hq : q = []
  · subst hq
    rfl
  · refine isTop_of_append (a := rest.reverse) ?_ hq
    rwa [show rest.reverse ++ q = p by simpa using congrArg List.reverse hr]

/-- The places above a directory are directories. -/
theorem node?_on_way (t : Tree) {p q : Place} (hp : t.node? p = some .directory)
    (h : q.reverse <+: p.reverse) : t.node? q = some .directory := by
  by_cases hq : q.isTop = true
  · exact node?_of_isTop t hq
  · rw [Bool.not_eq_true] at hq
    have hp' : p.isTop = false := by
      rw [← Bool.not_eq_true]
      exact fun e => by simp [isTop_on_way h e] at hq
    rw [node?_eq_find? _ hp'] at hp
    rw [node?_eq_find? _ hq]
    obtain ⟨rest, hr⟩ := h
    rw [← hr, Branch.find?_append] at hp
    cases hf : Branch.find? q.reverse t.root with
    | none => simp [hf] at hp
    | some b =>
      rw [hf, Option.bind_some] at hp
      cases b with
      | directory es => rfl
      | file c =>
        cases rest with
        | nil => simp [Branch.find?, Branch.node] at hp
        | cons s rest => rw [Branch.find?_eq_none (List.cons_ne_nil _ _) rfl] at hp; cases hp

theorem root_set (t : Tree) {p : Place} (hp : p ≠ []) (n : Node) :
    (t.set p n).root = Branch.put (.ofNode n) p.reverse t.root := by
  rw [set]
  cases hr : p.reverse with
  | nil => exact absurd (List.reverse_eq_nil_iff.mp hr) hp
  | cons s ns => rfl

/-- A file or an empty directory comes to a place in a directory, in place of a file or of
nothing. -/
theorem node?_set (t : Tree) {p : Place} {n : Node} (hp : p.isTop = false)
    (up : t.node? p.tail = some .directory) (hn : t.node? p ≠ some .directory) (q : Place) :
    (t.set p n).node? q = if q = p then some n else t.node? q := by
  by_cases hq : q.isTop = true
  · rw [node?_of_isTop _ hq, node?_of_isTop _ hq, if_neg (by rintro rfl; simp [hp] at hq)]
  rw [Bool.not_eq_true] at hq
  have hp' : p ≠ [] := by rintro rfl; cases hp
  rw [node?_eq_find? _ hq, root_set t hp']
  by_cases h₁ : p.reverse <+: q.reverse
  · obtain ⟨rest, hr⟩ := h₁
    rw [← hr, Branch.find?_put]
    by_cases hrest : rest = []
    · subst hrest
      have : q = p := by simpa using (congrArg List.reverse hr).symm
      simp [this, Branch.find?, Branch.node_ofNode]
    · have hne : q ≠ p := by
        rintro rfl
        exact hrest (List.append_right_eq_self.mp hr)
      rw [if_neg hne, Branch.find?_eq_none hrest (Branch.entries_ofNode n), node?_eq_find? _ hq,
        ← hr, Branch.find?_append]
      rw [node?_eq_find? _ hp] at hn
      cases hf : Branch.find? p.reverse t.root with
      | none => rfl
      | some b =>
        rw [hf] at hn
        rw [Option.bind_some, Branch.find?_eq_none hrest
          (Branch.entries_of_node_ne fun e => hn (by simp [e]))]
  · have hne : q ≠ p := by
      rintro rfl
      exact h₁ List.prefix_rfl
    rw [if_neg hne]
    by_cases h₂ : q.reverse <+: p.reverse
    · obtain ⟨es, hes⟩ := Branch.find?_put_on_way (.ofNode n) h₂
        (fun e => h₁ (e ▸ List.prefix_rfl)) t.root
      rw [hes]
      refine (node?_on_way t up ?_).symm
      cases p with
      | nil => exact absurd rfl hp'
      | cons s above =>
        rw [List.reverse_cons, List.prefix_concat_iff] at h₂
        refine h₂.resolve_left fun e => hne ?_
        rw [← List.reverse_cons] at e
        simpa using congrArg List.reverse e
    · rw [Branch.find?_put_of_ne _ h₁ h₂, node?_eq_find? _ hq]

/-- A file goes, and nothing else. -/
theorem node?_erase (t : Tree) {p : Place} {c : Content} (hc : t.node? p = some (.file c))
    (q : Place) : (t.erase p).node? q = if q = p then none else t.node? q := by
  have hp : p.isTop = false := by
    rw [← Bool.not_eq_true]
    intro e
    simp [node?_of_isTop t e] at hc
  have hp' : p.reverse ≠ [] := by
    intro e
    rw [List.reverse_eq_nil_iff.mp e] at hp
    cases hp
  have hf : (Branch.find? p.reverse t.root).map Branch.node = some (.file c) := by
    rwa [node?_eq_find? _ hp] at hc
  have hsome : (Branch.find? p.reverse t.root).isSome := by
    rw [← Option.isSome_map, hf]
    rfl
  by_cases hq : q.isTop = true
  · rw [node?_of_isTop _ hq, node?_of_isTop _ hq, if_neg (by rintro rfl; simp [hp] at hq)]
  rw [Bool.not_eq_true] at hq
  have hroot : (t.erase p).root = Branch.drop p.reverse t.root := by
    have hb : (t.branch? p).isNone = false := by
      have : (t.branch? p).isSome := by
        rw [← Option.isSome_map (f := Branch.node)]
        exact (congrArg Option.isSome hc).trans rfl
      simpa using this
    rw [erase, if_neg (by simp [hb])]
    cases hr : p.reverse with
    | nil => exact absurd hr hp'
    | cons s ns =>
      cases ns with
      | nil => rfl
      | cons r ns =>
        have hl : t.root.entries.lookup s ≠ none := by
          intro e
          rw [hr] at hsome
          simp [Branch.find?, e] at hsome
        rw [Branch.drop]
        cases hs : t.root.entries.lookup s with
        | none => exact absurd hs hl
        | some b => rfl
  rw [node?_eq_find? _ hq, node?_eq_find? _ hq, hroot, Branch.find?_drop hp' _ hsome]
  by_cases h : p.reverse <+: q.reverse
  · obtain ⟨rest, hr⟩ := h
    rw [if_pos ⟨rest, hr⟩]
    by_cases hrest : rest = []
    · subst hrest
      have : q = p := by simpa using (congrArg List.reverse hr).symm
      rw [if_pos this]
    · have hne : q ≠ p := by
        rintro rfl
        exact hrest (List.append_right_eq_self.mp hr)
      rw [if_neg hne, ← hr, Branch.find?_append]
      cases hb : Branch.find? p.reverse t.root with
      | none => rfl
      | some b =>
        rw [hb] at hf
        rw [Option.bind_some, Branch.find?_eq_none hrest
          (Branch.entries_of_node_ne fun e => by simp [e] at hf)]
        rfl
  · rw [if_neg h, if_neg]
    rintro rfl
    exact h List.prefix_rfl

/-! ## Where a path leads -/

/-- A way stands where it says. -/
def Stands (t : Tree) (w : Stand) : Prop := w.2 = t.branch? w.1

theorem branch?_cons (t : Tree) {q : Place} {es : List (String × Branch)}
    (hq : t.branch? q = some (.directory es)) {s : String} (hs : Path.isPlain s = true) :
    t.branch? (s :: q) = es.lookup s := by
  have hf : Branch.find? (s :: q).reverse t.root = es.lookup s := by
    rw [List.reverse_cons, Branch.find?_append]
    unfold branch? at hq
    split at hq
    · rename_i h
      cases hq
      rw [h, Option.bind_some, Branch.find?, Branch.entries_directory]
      cases es.lookup s <;> rfl
    · rename_i h
      split at hq
      · cases hq
        cases hb : Branch.find? q.reverse t.root with
        | none => rfl
        | some b =>
          cases b with
          | directory es => exact absurd hb (h es)
          | file c => rfl
      · exact absurd hq (h es)
  unfold branch?
  rw [hf, Place.isTop_cons_of_plain q hs]
  split
  · simp [*]
  · simp

theorem stands_step (t : Tree) {w r : Stand} {s : String} (hw : t.Stands w)
    (h : t.step w s = .ok r) : t.Stands r ∧ r.1 = w.1.follow s := by
  unfold step at h
  split at h
  · cases h
  · cases h
  · rename_i es hes
    split at h
    · rename_i hs
      split at h
      · cases h
      · cases h
        exact ⟨(branch?_cons t (hw ▸ hes) hs).symm, (Place.follow_of_plain _ hs).symm⟩
    · split at h
      · rename_i hi
        cases h
        exact ⟨hw, by simp [Place.follow, hi]⟩
      · cases h
        exact ⟨rfl, rfl⟩

theorem stands_walk (t : Tree) (p : Path) {w r : Stand} (hw : t.Stands w)
    (h : p.foldlM t.step w = .ok r) : t.Stands r ∧ r.1 = p.foldl Place.follow w.1 := by
  induction p generalizing w with
  | nil =>
    cases h
    exact ⟨hw, rfl⟩
  | cons s p ih =>
    rw [List.foldlM_cons] at h
    cases hs : t.step w s with
    | error e => simp [hs, bind, Except.bind] at h
    | ok w' =>
      obtain ⟨hw', he⟩ := stands_step t hw hs
      rw [List.foldl_cons, ← he]
      exact ih hw' (by simpa [hs, bind, Except.bind] using h)

theorem walk_of_locate (t : Tree) {p : Path} {q : Place} (h : t.locate p = .ok q) :
    p.foldlM t.step ([], t.branch? []) = .ok (q, t.branch? q) := by
  unfold locate at h
  split at h
  · cases h
  split at h
  · cases h
  split at h
  · cases h
  cases hw : p.foldlM t.step ([], t.branch? []) with
  | error e => simp [hw, Except.map] at h
  | ok r =>
    rw [hw] at h
    cases h
    have hr : r.2 = t.branch? r.1 :=
      (stands_walk t p (show t.Stands ([], t.branch? []) from rfl) hw).1
    rw [← hr]

theorem locate_eq_place (t : Tree) {p : Path} {q : Place} (h : t.locate p = .ok q) :
    q = p.place :=
  (stands_walk t p (show t.Stands ([], t.branch? []) from rfl) (walk_of_locate t h)).2

theorem hasNul_of_locate (t : Tree) {p : Path} {q : Place} (h : t.locate p = .ok q) :
    p.hasNul = false := by
  unfold locate at h
  split at h
  · cases h
  split at h
  · cases h
  · exact Bool.eq_false_iff.mpr ‹_›

/-- A short name leads one step further from a directory. -/
theorem locate_child (t : Tree) {p : Path} {q : Place} (h : t.locate p = .ok q)
    (hq : t.node? q = some .directory) {s : String} (hs : Path.isPlain s = true)
    (nul : s.toList.contains '\x00' = false) (short : s.utf8ByteSize ≤ Path.maxNameSize)
    (fits : (p.child s).size ≤ Path.maxSize) : t.locate (p.child s) = .ok (s :: q) := by
  obtain ⟨es, hes⟩ : ∃ es, t.branch? q = some (.directory es) := by
    unfold node? at hq
    cases hb : t.branch? q with
    | none => simp [hb] at hq
    | some b =>
      cases b with
      | directory es => exact ⟨es, rfl⟩
      | file c => simp [hb, Branch.node] at hq
  have last : t.step (q, t.branch? q) s = .ok (s :: q, es.lookup s) := by
    simp [step, hes, hs, Nat.not_lt.mpr short]
  have hw := walk_of_locate t h
  have hn := hasNul_of_locate t h
  have key : ∃ init, p.child s = init ++ [s] ∧ Path.hasNul init = false ∧
      init.foldlM t.step ([], t.branch? []) = .ok (q, t.branch? q) := by
    rw [Path.child]
    split
    · rename_i hl
      obtain ⟨init, rfl⟩ := List.getLast?_eq_some_iff.mp hl
      refine ⟨init, by rw [List.dropLast_concat], ?_, ?_⟩
      · simp only [Path.hasNul, List.any_append, Bool.or_eq_false_iff] at hn
        exact hn.1
      · rw [List.foldlM_append] at hw
        cases hi : init.foldlM t.step ([], t.branch? []) with
        | error e => simp [hi, bind, Except.bind] at hw
        | ok w =>
          have hstep : t.step w "" = .ok (q, t.branch? q) := by
            rw [hi] at hw
            cases hs : t.step w "" with
            | error e => simp [hs, bind, Except.bind] at hw
            | ok r => simpa [hs, bind, Except.bind, pure, Except.pure] using hw
          unfold step at hstep
          split at hstep
          · cases hstep
          · cases hstep
          · exact hstep
    · exact ⟨p, rfl, hn, hw⟩
  obtain ⟨init, he, hni, hwi⟩ := key
  have hnul : (p.child s).hasNul = false := by
    simp only [he, Path.hasNul, List.any_append, Bool.or_eq_false_iff, List.any_cons, List.any_nil,
      Bool.or_false]
    exact ⟨hni, nul⟩
  have hne : p.child s ≠ [] := by simp [he]
  rw [locate, if_neg hne, hnul, if_neg (Bool.false_ne_true), if_neg (Nat.not_lt.mpr fits), he,
    List.foldlM_append, hwi]
  simp only [bind, Except.bind, List.foldlM_cons, List.foldlM_nil, last, pure, Except.pure,
    Except.map]

end Tree

end OvertimeNotice
