import Mathlib.Algebra.Order.BigOperators.Group.List
import Mathlib.Algebra.Order.Group.Nat
import OvertimeNotice.Proofs.Files.Ways

/-!
# Making directories

Making a directory with all that are missing above it adds directories on the way there and changes
nothing else. Asked for again, a directory that was made is there, and one that could not be made
still cannot be, although some above it may have been made the first time.

* `Tree.Gains`: a tree with more, at some places only.
* `makeDirectories_gains`, `isDirectory_of_makeDirectories`: what is made.
* `makeDirectories_of_isDirectory`, `makeDirectories_error`: asking again.
* `makeDirectories_congr`: making directories in trees that agree.
* `makeDirectories_file`: no file comes with them.
-/

namespace OvertimeNotice

/-! ## Bare paths, and the paths above a path -/

namespace Path

variable {p : Path} {s : String} {above : List String}

theorem eq_bare_append (p : Path) :
    ∃ blanks : List String, p = p.bare ++ blanks ∧ ∀ s ∈ blanks, s = "" := by
  refine ⟨(p.reverse.takeWhile (· == "")).reverse, ?_, fun s hs => ?_⟩
  · rw [bare, ← List.reverse_append, List.takeWhile_append_dropWhile, List.reverse_reverse]
  · simpa using List.all_eq_true.mp List.all_takeWhile s (List.mem_reverse.mp hs)

theorem bare_prefix (p : Path) : p.bare <+: p := by
  obtain ⟨blanks, hp, -⟩ := eq_bare_append p
  exact ⟨blanks, hp.symm⟩

theorem filter_bare (p : Path) :
    p.bare.filter (fun s => !isIdle s) = p.filter fun s => !isIdle s := by
  obtain ⟨blanks, hp, hb⟩ := eq_bare_append p
  have hnone : blanks.filter (fun s => !isIdle s) = [] := by
    rw [List.filter_eq_nil_iff]
    intro s hs
    rw [hb s hs]
    decide
  calc p.bare.filter (fun s => !isIdle s)
      = (p.bare ++ blanks).filter fun s => !isIdle s := by
        rw [List.filter_append, hnone, List.append_nil]
    _ = p.filter fun s => !isIdle s := by rw [← hp]

theorem foldl_follow_blanks {blanks : List String} (h : ∀ s ∈ blanks, s = "") (q : Place) :
    blanks.foldl Place.follow q = q := by
  induction blanks with
  | nil => rfl
  | cons s blanks ih =>
    rw [List.foldl_cons, h s List.mem_cons_self, Place.follow_idle]
    exact ih fun s hs => h s (List.mem_cons_of_mem _ hs)

theorem place_bare (p : Path) : p.bare.place = p.place := by
  obtain ⟨blanks, hp, hb⟩ := eq_bare_append p
  calc p.bare.place = Path.place (p.bare ++ blanks) := by
        rw [place, place, List.foldl_append, foldl_follow_blanks hb]
    _ = p.place := by rw [← hp]

theorem hasNul_of_sublist {p' : Path} (h : p'.Sublist p) (hp : p.hasNul = false) :
    p'.hasNul = false := by
  rw [hasNul, List.any_eq_false] at hp ⊢
  exact fun s hs => hp s (h.subset hs)

theorem hasNul_child (h : p.hasNul = false) (hs : s.toList.contains '\x00' = false) :
    (p.child s).hasNul = false := by
  have hinit : ∀ init : Path, init.Sublist p → Path.hasNul (init ++ [s]) = false := by
    intro init hsub
    have hi := hasNul_of_sublist hsub h
    rw [hasNul] at hi ⊢
    rw [List.any_append, hi]
    simpa using hs
  unfold child
  split
  · exact hinit _ (List.dropLast_sublist _)
  · exact hinit _ (List.Sublist.refl _)

theorem hasNul_bare (p : Path) : p.bare.hasNul = p.hasNul := by
  obtain ⟨blanks, hp, hb⟩ := eq_bare_append p
  have hnone : blanks.any (fun s => s.toList.contains '\x00') = false := by
    rw [List.any_eq_false]
    intro s hs
    rw [hb s hs]
    decide
  calc p.bare.hasNul = Path.hasNul (p.bare ++ blanks) := by
        rw [hasNul, hasNul, List.any_append, hnone, Bool.or_false]
    _ = p.hasNul := by rw [← hp]

theorem size_le_of_sublist {p' : Path} (h : p'.Sublist p) : p'.size ≤ p.size := by
  have hw : (p'.filter (· != root)).Sublist (p.filter (· != root)) := h.filter _
  have hsum := (hw.map String.utf8ByteSize).sum_le_sum fun _ _ => Nat.zero_le _
  have hlength := hw.length_le
  simp only [size]
  omega

/-- The steps above the path above. -/
theorem stepsAbove_reverse (h : p.stepsAbove = s :: above) :
    stepsAbove (s :: above).reverse = above := by
  have hidle : ∀ x ∈ (s :: above).reverse, (!isIdle x) = true := by
    intro x hx
    rw [List.mem_reverse, ← h, stepsAbove] at hx
    exact (List.mem_filter.mp (List.mem_reverse.mp (List.mem_of_mem_tail hx))).2
  rw [stepsAbove, List.filter_eq_self.mpr hidle, List.reverse_reverse, List.tail_cons]

theorem filter_eq_of_stepsAbove (h : p.stepsAbove = s :: above) :
    ∃ last, (p.filter fun s => !isIdle s) = (s :: above).reverse ++ [last] := by
  rw [stepsAbove] at h
  cases hr : (p.filter fun s => !isIdle s).reverse with
  | nil => rw [hr] at h; exact nomatch h
  | cons last rest =>
    rw [hr, List.tail_cons] at h
    exact ⟨last, by rw [← h, ← List.reverse_cons, ← hr, List.reverse_reverse]⟩

/-- The path above passes what the path passes. -/
theorem passes_above (h : p.stepsAbove = s :: above) {q : Place}
    (hq : q ∈ Path.passes (s :: above).reverse) : q ∈ p.passes := by
  obtain ⟨last, hf⟩ := filter_eq_of_stepsAbove h
  refine mem_passedFrom_filter ?_
  rw [hf]
  exact mem_passedFrom_append_left hq

theorem passes_bare {q : Place} (hq : q ∈ p.bare.passes) : q ∈ p.passes := by
  obtain ⟨blanks, hp, -⟩ := eq_bare_append p
  rw [hp]
  exact passes_append_left hq

end Path

namespace Tree

variable {t u v : Tree} {p : Path} {q : Place} {s : String} {above : List String}
  {K L : Place → Prop}

/-! ## Trees with more -/

/-- `u` has what `t` has, and more at places of `K` only. -/
def Gains (K : Place → Prop) (t u : Tree) : Prop := Agree (fun q => K q → t.node? q ≠ none) t u

theorem Gains.refl (K : Place → Prop) (t : Tree) : Gains K t t := Agree.refl _ t

theorem Gains.node? (h : Gains K t u) {n : Node} (hq : t.node? q = some n) :
    u.node? q = some n := by
  rw [← hq]
  exact h q fun _ hn => nomatch hq.symm.trans hn

theorem Gains.trans (h : Gains K t u) (h' : Gains K u v) : Gains K t v := by
  intro q hq
  have hu : u.node? q = t.node? q := h q hq
  exact (h' q fun hk => hu ▸ hq hk).trans hu

theorem Gains.mono (h : Gains K t u) (hL : ∀ q, K q → L q) : Gains L t u :=
  fun q hq => h q fun hk => hq (hL q hk)

theorem Gains.grows (h : Gains K t u) : Grows t u := fun _ hq => h.node? hq

theorem Gains.agree (h : Gains K t u) : Agree (fun q => ¬K q) t u :=
  fun q hq => h q fun hk => absurd hk hq

theorem gains_set_new (h : t.node? q = none) (up : t.node? q.tail = some .directory) (n : Node) :
    Gains (· = q) t (t.set q n) :=
  fun r hr => agree_set_new h up n r fun he => hr he (he ▸ h)

/-! ## What is a directory -/

theorem isDirectory_iff :
    t.isDirectory p = true ↔ t.locate p = .ok p.place ∧ t.node? p.place = some .directory := by
  unfold isDirectory
  cases hl : t.locate p with
  | error f => simp
  | ok q => simp [locate_eq_place t hl]

theorem isDirectory_mono (h : Grows t u) (hp : t.isDirectory p = true) :
    u.isDirectory p = true := by
  obtain ⟨hl, hd⟩ := isDirectory_iff.mp hp
  exact isDirectory_iff.mpr ⟨locate_mono h hl, h _ hd⟩

theorem isDirectory_congr (h : Agree (· ∈ p.passes) t u) : u.isDirectory p = t.isDirectory p := by
  rw [Bool.eq_iff_iff, isDirectory_iff, isDirectory_iff, locate_congr h,
    h _ (Path.place_mem_passes p)]

theorem walk_blanks {blanks : List String} (h : ∀ s ∈ blanks, s = "")
    (hq : t.node? q = some .directory) : blanks.foldlM t.go q = .ok q := by
  induction blanks with
  | nil => rfl
  | cons s blanks ih =>
    have hs : t.go q s = .ok q := by
      rw [h s List.mem_cons_self, go, hq]
      rfl
    rw [List.foldlM_cons, hs]
    exact ih fun s hs => h s (List.mem_cons_of_mem _ hs)

/-- A path leads to a directory with or without slashes at its end. -/
theorem locate_of_bare (h : t.locate p.bare = .ok q) (hq : t.node? q = some .directory)
    (hs : p.size ≤ Path.maxSize) : t.locate p = .ok q := by
  obtain ⟨blanks, hp, hb⟩ := Path.eq_bare_append p
  obtain ⟨hne, hn, -, hw⟩ := locate_eq_ok h
  refine locate_of_walk (fun he => hne ?_) (Path.hasNul_bare p ▸ hn) hs ?_
  · rw [he]
    rfl
  · rw [hp, walk_append, hw]
    exact walk_blanks hb hq

theorem locate_bare (h : t.locate p = .ok q) (hb : p.bare ≠ []) : t.locate p.bare = .ok q := by
  obtain ⟨blanks, hp, hblank⟩ := Path.eq_bare_append p
  obtain ⟨-, hn, hs, hw⟩ := locate_eq_ok h
  refine locate_of_walk hb (Path.hasNul_bare p ▸ hn)
    ((Path.size_le_of_sublist (Path.bare_prefix p).sublist).trans hs) ?_
  rw [hp, walk_append] at hw
  cases hr : p.bare.foldlM t.go [] with
  | error f => rw [hr] at hw; exact nomatch hw
  | ok r =>
    rw [hr] at hw
    rw [walk_eq_ok (show blanks.foldlM t.go r = .ok q from hw), Path.foldl_follow_blanks hblank]

/-- Steps that stay where they are can be left out. -/
theorem walk_filter {r : Place} (h : p.foldlM t.go q = .ok r) :
    (p.filter fun s => !Path.isIdle s).foldlM t.go q = .ok r := by
  induction p generalizing q with
  | nil => exact h
  | cons s p ih =>
    rw [List.foldlM_cons] at h
    cases hs : t.go q s with
    | error f => rw [hs] at h; exact nomatch h
    | ok q' =>
      rw [hs] at h
      by_cases hi : Path.isIdle s = true
      · rw [List.filter_cons_of_neg (by simp [hi])]
        rw [(go_eq_ok hs).2, Path.follow_of_isIdle hi] at h
        exact ih h
      · rw [List.filter_cons_of_pos (by simp [hi]), List.foldlM_cons, hs]
        exact ih h

/-- A path that leads somewhere leads through a directory above. -/
theorem isDirectory_above (h : t.locate p.bare = .ok q) (hp : p.stepsAbove = s :: above) :
    t.isDirectory (s :: above).reverse = true := by
  obtain ⟨last, hf⟩ := Path.filter_eq_of_stepsAbove hp
  obtain ⟨-, hn, hs, hw⟩ := locate_eq_ok h
  have hsub : (s :: above).reverse.Sublist p.bare := by
    refine List.Sublist.trans ?_ (List.filter_sublist (p := fun s => !Path.isIdle s))
    rw [Path.filter_bare, hf]
    exact List.sublist_append_left _ _
  have hwalk := walk_filter hw
  rw [Path.filter_bare, hf, walk_append] at hwalk
  cases hr : (s :: above).reverse.foldlM t.go [] with
  | error f => rw [hr] at hwalk; exact nomatch hwalk
  | ok r =>
    have hl : t.locate (s :: above).reverse = .ok r :=
      locate_of_walk (by simp) (Path.hasNul_of_sublist hsub hn)
        ((Path.size_le_of_sublist hsub).trans hs) hr
    have hlast : List.foldlM t.go r [last] = .ok q := by
      rw [hr] at hwalk
      exact hwalk
    rw [List.foldlM_cons] at hlast
    cases hg : t.go r last with
    | error f => rw [hg] at hlast; exact nomatch hlast
    | ok r' =>
      have hplace := locate_eq_place t hl
      exact isDirectory_iff.mpr ⟨hplace ▸ hl, hplace ▸ (go_eq_ok hg).1⟩

/-! ## One directory -/

theorem makeDirectory_eq_ok (h : t.makeDirectory p = .ok u) : p.size ≤ Path.maxSize ∧
    t.locate p.bare = .ok p.place ∧ t.node? p.place = none ∧ u = t.set p.place .directory := by
  rw [makeDirectory] at h
  split at h
  · exact nomatch h
  rename_i hsize
  cases hl : t.locate p.bare with
  | error f => simp only [hl] at h; exact nomatch h
  | ok q =>
    obtain rfl : q = p.place := (locate_eq_place t hl).trans (Path.place_bare p)
    simp only [hl] at h
    split at h
    · rename_i hq
      refine ⟨?_, rfl, hq, (Except.ok.inj h).symm⟩
      obtain ⟨-, hn, -⟩ := locate_eq_ok hl
      rw [Path.hasNul_bare] at hn
      rw [hn] at hsize
      simpa using hsize
    · exact nomatch h

theorem makeDirectory_gains (h : t.makeDirectory p = .ok u) : Gains (· ∈ p.passes) t u := by
  obtain ⟨-, hl, hq, rfl⟩ := makeDirectory_eq_ok h
  refine (gains_set_new hq (node?_tail_of_locate hl hq) _).mono fun q he => ?_
  rw [he]
  exact Path.place_mem_passes p

/-- A directory that has been made is where the path leads. -/
theorem isDirectory_of_makeDirectory (h : t.makeDirectory p = .ok u) :
    u.isDirectory p = true := by
  have hgrows := (makeDirectory_gains h).grows
  obtain ⟨hs, hl, hq, rfl⟩ := makeDirectory_eq_ok h
  have hd : (t.set p.place .directory).node? p.place = some .directory :=
    (node?_set_new hq (node?_tail_of_locate hl hq) _ _).trans (if_pos rfl)
  exact isDirectory_iff.mpr ⟨locate_of_bare (locate_mono hgrows hl) hd hs, hd⟩

theorem makeDirectory_of_isDirectory (h : t.isDirectory p = true) :
    ∃ f, t.makeDirectory p = .error f ∧ (p.bare ≠ [] → f = .occupied) := by
  obtain ⟨hl, hd⟩ := isDirectory_iff.mp h
  cases hm : t.makeDirectory p with
  | ok u =>
    obtain ⟨-, -, hq, -⟩ := makeDirectory_eq_ok hm
    rw [hd] at hq
    exact nomatch hq
  | error f =>
    refine ⟨f, rfl, fun hb => ?_⟩
    obtain ⟨-, -, hs, -⟩ := locate_eq_ok hl
    rw [makeDirectory, decide_eq_false (Nat.not_lt.mpr hs), Bool.and_false,
      if_neg Bool.false_ne_true, locate_bare hl hb] at hm
    simp only [hd, reduceCtorEq, if_false] at hm
    exact (Except.error.inj hm).symm

theorem makeDirectory_congr (h : Agree K t u) (hp : ∀ q ∈ p.passes, K q) :
    (∃ f, t.makeDirectory p = .error f ∧ u.makeDirectory p = .error f) ∨
      ∃ t' u', t.makeDirectory p = .ok t' ∧ u.makeDirectory p = .ok u' ∧ Agree K t' u' := by
  have hl : u.locate p.bare = t.locate p.bare :=
    locate_congr (h.mono fun q hq => hp q (Path.passes_bare hq))
  by_cases hs : (!p.hasNul && decide (Path.maxSize < p.size)) = true
  · left
    exact ⟨.tooLong, by rw [makeDirectory, if_pos hs], by rw [makeDirectory, if_pos hs]⟩
  cases hq : t.locate p.bare with
  | error f =>
    left
    refine ⟨f, ?_, ?_⟩
    · simp only [makeDirectory, if_neg hs, hq]
    · simp only [makeDirectory, if_neg hs, hl, hq]
  | ok q =>
    obtain rfl : q = p.place := (locate_eq_place t hq).trans (Path.place_bare p)
    have hn := h _ (hp _ (Path.place_mem_passes p))
    by_cases hnone : t.node? p.place = none
    · right
      have hnone' : u.node? p.place = none := hn.trans hnone
      refine ⟨t.set p.place .directory, u.set p.place .directory, ?_, ?_, fun r hr => ?_⟩
      · simp only [makeDirectory, if_neg hs, hq, hnone, if_true]
      · simp only [makeDirectory, if_neg hs, hl, hq, hnone', if_true]
      · rw [node?_set_new hnone (node?_tail_of_locate hq hnone),
          node?_set_new hnone' (node?_tail_of_locate (hl.trans hq) hnone'), h r hr]
    · left
      have hnone' : u.node? p.place ≠ none := fun he => hnone (hn ▸ he)
      refine ⟨.occupied, ?_, ?_⟩
      · simp only [makeDirectory, if_neg hs, hq, if_neg hnone]
      · simp only [makeDirectory, if_neg hs, hl, hq, if_neg hnone']

/-! ## A directory, new or not -/

theorem haveDirectory_gains (t : Tree) (p : Path) :
    Gains (· ∈ p.passes) t (t.haveDirectory p).2 := by
  unfold haveDirectory
  split
  · rename_i u hm
    exact makeDirectory_gains hm
  · exact .refl _ t

theorem isDirectory_of_haveDirectory (h : t.haveDirectory p = (.ok (), u)) :
    u.isDirectory p = true := by
  unfold haveDirectory at h
  split at h
  · rename_i v hm
    obtain ⟨-, rfl⟩ := Prod.mk.inj h
    exact isDirectory_of_makeDirectory hm
  · split at h
    · obtain ⟨-, rfl⟩ := Prod.mk.inj h
      assumption
    · exact nomatch (Prod.mk.inj h).1

theorem haveDirectory_of_isDirectory (h : t.isDirectory p = true) :
    t.haveDirectory p = (.ok (), t) := by
  obtain ⟨f, hf, -⟩ := makeDirectory_of_isDirectory h
  simp only [haveDirectory, hf, h, if_true]

/-- What fails leaves nothing behind. -/
theorem haveDirectory_error {f : FileFault} (h : t.haveDirectory p = (.error f, u)) :
    u = t ∧ t.makeDirectory p = .error f ∧ t.isDirectory p = false := by
  unfold haveDirectory at h
  split at h
  · exact nomatch (Prod.mk.inj h).1
  · rename_i f' hm
    split at h
    · exact nomatch (Prod.mk.inj h).1
    · obtain ⟨hf, rfl⟩ := Prod.mk.inj h
      rw [Except.error.inj hf] at hm
      exact ⟨rfl, hm, Bool.not_eq_true _ ▸ ‹_›⟩

theorem haveDirectory_congr (h : Agree K t u) (hp : ∀ q ∈ p.passes, K q) :
    (u.haveDirectory p).1 = (t.haveDirectory p).1 ∧
      Agree K (t.haveDirectory p).2 (u.haveDirectory p).2 := by
  have hd : u.isDirectory p = t.isDirectory p := isDirectory_congr (h.mono hp)
  rcases makeDirectory_congr h hp with ⟨f, ht, hu⟩ | ⟨t', u', ht, hu, ha⟩
  · simp only [haveDirectory, ht, hu, hd]
    exact ⟨trivial, h⟩
  · simp only [haveDirectory, ht, hu]
    exact ⟨trivial, ha⟩

/-! ## A directory and those above it -/

theorem makeAlong_gains (hp : p.stepsAbove = above) :
    Gains (· ∈ p.passes) t (t.makeAlong p above).2 := by
  induction above generalizing p with
  | nil => exact haveDirectory_gains t p
  | cons s above ih =>
    have hup : Gains (· ∈ p.passes) t (t.makeAlong (s :: above).reverse above).2 :=
      (ih (Path.stepsAbove_reverse hp)).mono fun _ => Path.passes_above hp
    unfold makeAlong
    split
    · split
      · rename_i hm
        rw [hm] at hup
        exact hup
      · rename_i hm
        rw [hm] at hup
        exact hup.trans (haveDirectory_gains _ p)
    · exact haveDirectory_gains t p

theorem isDirectory_of_makeAlong (h : t.makeAlong p above = (.ok (), u)) :
    u.isDirectory p = true := by
  cases above with
  | nil => exact isDirectory_of_haveDirectory h
  | cons s above =>
    unfold makeAlong at h
    split at h
    · split at h
      · exact nomatch (Prod.mk.inj h).1
      · exact isDirectory_of_haveDirectory h
    · exact isDirectory_of_haveDirectory h

theorem makeAlong_of_isDirectory (h : t.isDirectory p = true) (hp : p.stepsAbove = above) :
    t.makeAlong p above = (.ok (), t) := by
  cases above with
  | nil => exact haveDirectory_of_isDirectory h
  | cons s above =>
    have hb : p.bare ≠ [] := by
      intro hb
      obtain ⟨last, hf⟩ := Path.filter_eq_of_stepsAbove hp
      rw [← Path.filter_bare, hb] at hf
      simp at hf
    obtain ⟨f, hf, hoccupied⟩ := makeDirectory_of_isDirectory h
    rw [hoccupied hb] at hf
    simp only [makeAlong, hf]
    exact haveDirectory_of_isDirectory h

/-- What cannot be made cannot be made with what was made above it, either. -/
theorem makeAlong_error {f : FileFault} (h : t.makeAlong p above = (.error f, u))
    (hp : p.stepsAbove = above) : ∃ f', u.makeAlong p above = (.error f', u) := by
  induction above generalizing p f with
  | nil =>
    obtain ⟨rfl, -⟩ := haveDirectory_error h
    exact ⟨f, h⟩
  | cons s above ih =>
    have hup := Path.stepsAbove_reverse hp
    have hagain := h
    unfold makeAlong at h
    split at h
    · split at h
      · -- the directory above is still missing, and the path leads nowhere without it
        rename_i f₁ u₁ hm
        obtain ⟨-, rfl⟩ := Prod.mk.inj h
        obtain ⟨f', hf'⟩ := ih hm hup
        have hnowhere : ∀ q, u₁.locate p.bare ≠ .ok q := by
          intro q hq
          rw [makeAlong_of_isDirectory (isDirectory_above hq hp) hup] at hf'
          exact nomatch (Prod.mk.inj hf').1
        obtain ⟨e, he⟩ : ∃ e, u₁.makeDirectory p = .error e := by
          cases hmake : u₁.makeDirectory p with
          | error e => exact ⟨e, rfl⟩
          | ok v => exact absurd (makeDirectory_eq_ok hmake).2.1 (hnowhere _)
        have hnot : u₁.isDirectory p = false := by
          rw [← Bool.not_eq_true]
          intro hd
          refine hnowhere _ (locate_bare (isDirectory_iff.mp hd).1 fun hb => ?_)
          obtain ⟨last, hf⟩ := Path.filter_eq_of_stepsAbove hp
          rw [← Path.filter_bare, hb] at hf
          simp at hf
        by_cases hmissing : e = .missing
        · subst hmissing
          exact ⟨f', by simp only [makeAlong, he, hf']⟩
        · refine ⟨e, ?_⟩
          unfold makeAlong
          split
          · rename_i hm
            exact absurd (Except.error.inj (he.symm.trans hm)) hmissing
          · simp only [haveDirectory, he, hnot, Bool.false_eq_true, if_false]
      · -- it is there now, and the path fails as it did
        rename_i u₁ hm
        obtain ⟨rfl, he, hnot⟩ := haveDirectory_error h
        have hd := isDirectory_of_makeAlong hm
        by_cases hmissing : f = .missing
        · subst hmissing
          refine ⟨.missing, ?_⟩
          simp only [makeAlong, he, makeAlong_of_isDirectory hd hup, h]
        · refine ⟨f, ?_⟩
          unfold makeAlong
          split
          · rename_i hm
            exact absurd (Except.error.inj (he.symm.trans hm)) hmissing
          · exact h
    · obtain ⟨rfl, -⟩ := haveDirectory_error h
      exact ⟨f, hagain⟩

theorem makeAlong_congr (h : Agree K t u) (hp : p.stepsAbove = above)
    (hK : ∀ q ∈ p.passes, K q) :
    (u.makeAlong p above).1 = (t.makeAlong p above).1 ∧
      Agree K (t.makeAlong p above).2 (u.makeAlong p above).2 := by
  induction above generalizing p with
  | nil => exact haveDirectory_congr h hK
  | cons s above ih =>
    rcases makeDirectory_congr h hK with ⟨f, ht, hu⟩ | ⟨t', u', ht, hu, ha⟩
    · by_cases hmissing : f = .missing
      · subst hmissing
        obtain ⟨h₁, h₂⟩ := ih (Path.stepsAbove_reverse hp) fun q hq =>
          hK q (Path.passes_above hp hq)
        simp only [makeAlong, ht, hu]
        cases hr : t.makeAlong (s :: above).reverse above with
        | mk r t₁ =>
          cases hr' : u.makeAlong (s :: above).reverse above with
          | mk r' u₁ =>
            rw [hr, hr'] at h₁ h₂
            obtain rfl : r' = r := h₁
            cases r' with
            | error f => exact ⟨rfl, h₂⟩
            | ok => exact haveDirectory_congr h₂ hK
      · have hhave := haveDirectory_congr h hK
        have hneither : ∀ v : Tree, v.makeDirectory p = .error f →
            v.makeAlong p (s :: above) = v.haveDirectory p := by
          intro v hv
          unfold makeAlong
          split
          · rename_i hm
            exact absurd (Except.error.inj (hv.symm.trans hm)) hmissing
          · rfl
        rw [hneither t ht, hneither u hu]
        exact hhave
    · have hhave := haveDirectory_congr h hK
      simp only [makeAlong, ht, hu]
      exact hhave

/-! ## All of it -/

theorem makeDirectories_gains (t : Tree) (p : Path) :
    Gains (· ∈ p.passes) t (t.makeDirectories p).2 := by
  unfold makeDirectories
  split
  · exact .refl _ t
  · exact makeAlong_gains rfl

theorem isDirectory_of_makeDirectories (hp : p ≠ []) (h : t.makeDirectories p = (.ok (), u)) :
    u.isDirectory p = true := by
  rw [makeDirectories, if_neg hp] at h
  exact isDirectory_of_makeAlong h

theorem makeDirectories_of_isDirectory (h : t.isDirectory p = true) :
    t.makeDirectories p = (.ok (), t) := by
  unfold makeDirectories
  split
  · rfl
  · exact makeAlong_of_isDirectory h rfl

theorem makeDirectories_error {f : FileFault} (h : t.makeDirectories p = (.error f, u)) :
    ∃ f', u.makeDirectories p = (.error f', u) := by
  unfold makeDirectories at h ⊢
  split at h
  · exact nomatch (Prod.mk.inj h).1
  · rename_i hp
    rw [if_neg hp]
    exact makeAlong_error h rfl

theorem makeDirectories_congr (h : Agree K t u) (hK : ∀ q ∈ p.passes, K q) :
    (u.makeDirectories p).1 = (t.makeDirectories p).1 ∧
      Agree K (t.makeDirectories p).2 (u.makeDirectories p).2 := by
  unfold makeDirectories
  split
  · exact ⟨rfl, h⟩
  · exact makeAlong_congr h rfl hK

/-! ## No file is made -/

theorem makeDirectory_file {c : Content} (h : t.makeDirectory p = .ok u)
    (hf : u.node? q = some (.file c)) : t.node? q = some (.file c) := by
  obtain ⟨-, hl, hq, rfl⟩ := makeDirectory_eq_ok h
  rw [node?_set_new hq (node?_tail_of_locate hl hq)] at hf
  split at hf
  · exact nomatch hf
  · exact hf

theorem haveDirectory_file {c : Content} (hf : (t.haveDirectory p).2.node? q = some (.file c)) :
    t.node? q = some (.file c) := by
  unfold haveDirectory at hf
  split at hf
  · rename_i hm
    exact makeDirectory_file hm hf
  · exact hf

theorem makeAlong_file {c : Content} (hf : (t.makeAlong p above).2.node? q = some (.file c)) :
    t.node? q = some (.file c) := by
  induction above generalizing p with
  | nil => exact haveDirectory_file hf
  | cons s above ih =>
    unfold makeAlong at hf
    split at hf
    · have hup := ih (p := (s :: above).reverse)
      split at hf
      · rename_i hm
        rw [hm] at hup
        exact hup hf
      · rename_i hm
        rw [hm] at hup
        exact hup (haveDirectory_file hf)
    · exact haveDirectory_file hf

theorem makeDirectories_file {c : Content}
    (hf : (t.makeDirectories p).2.node? q = some (.file c)) : t.node? q = some (.file c) := by
  unfold makeDirectories at hf
  split at hf
  · exact hf
  · exact makeAlong_file hf

end Tree

end OvertimeNotice
