import OvertimeNotice.Proofs.Files.Nodes

/-!
# Ways in file trees

A path is walked from place to place, and whether a step can be taken depends on what stands at the
place that it is taken from. So a path leads as far in one tree as in another that has the same at
the places it passes, and as far in a tree with more directories.

* `Tree.go`, `Tree.locate_eq`: a walk by way of the nodes that it meets.
* `Path.passes`: the places on the way of a path.
* `Tree.locate_congr`, `Tree.locate_mono`: walks in trees that agree, or have more directories.
-/

namespace OvertimeNotice

/-! ## The places that a path passes -/

namespace Path

/-- The places of a walk, from the one where it starts to the one where it ends. -/
def passedFrom (q : Place) : Path → List Place
  | [] => [q]
  | s :: p => q :: passedFrom (q.follow s) p

/-- The places on the way of a path, its end included. -/
def passes (p : Path) : List Place := p.passedFrom []

variable {q r : Place} {p : Path}

theorem getLast_mem_passedFrom (q : Place) (p : Path) :
    p.foldl Place.follow q ∈ passedFrom q p := by
  induction p generalizing q with
  | nil => simp [passedFrom]
  | cons s p ih => exact List.mem_cons_of_mem _ (ih _)

theorem place_mem_passes (p : Path) : p.place ∈ p.passes := getLast_mem_passedFrom [] p

theorem mem_passedFrom_append_left {p' : Path} (h : r ∈ passedFrom q p) :
    r ∈ passedFrom q (p ++ p') := by
  induction p generalizing q with
  | nil =>
    rw [List.mem_singleton.mp h]
    cases p' <;> simp [passedFrom]
  | cons s p ih =>
    rcases List.mem_cons.mp h with rfl | h
    · exact List.mem_cons_self
    · exact List.mem_cons_of_mem _ (ih h)

theorem passes_append_left {p' : Path} (h : r ∈ p.passes) : r ∈ Path.passes (p ++ p') :=
  mem_passedFrom_append_left h

theorem follow_of_isIdle {s : String} (h : isIdle s = true) (q : Place) : q.follow s = q := by
  rw [Place.follow, if_pos h]

/-- Steps that stay where they are pass nothing. -/
theorem mem_passedFrom_filter (h : r ∈ passedFrom q (p.filter fun s => !isIdle s)) :
    r ∈ passedFrom q p := by
  induction p generalizing q with
  | nil => exact h
  | cons s p ih =>
    by_cases hs : isIdle s = true
    · rw [List.filter_cons_of_neg (by simp [hs])] at h
      have := ih h
      rw [passedFrom, follow_of_isIdle hs]
      exact List.mem_cons_of_mem _ this
    · rw [List.filter_cons_of_pos (by simp [hs])] at h
      rcases List.mem_cons.mp h with rfl | h
      · exact List.mem_cons_self
      · exact List.mem_cons_of_mem _ (ih h)

end Path

/-! ## Proper places -/

/-- A step is a name if it starts with no dot or slash. -/
theorem Path.isPlain_of_head? {s : String} {c : Char} (h : s.toList.head? = some c) (hdot : c ≠ '.')
    (hslash : c ≠ '/') : isPlain s = true := by
  have hne : ∀ x : String, x.toList.head? ≠ some c → s ≠ x := by
    rintro x hx rfl
    exact hx h
  refine isPlain_iff.mpr ⟨?_, hne _ ?_, hne _ ?_⟩
  · simp only [isIdle, Bool.or_eq_false_iff, beq_eq_false_iff_ne]
    exact ⟨hne _ (by simp), hne _ (by simpa using hdot.symm)⟩
  · simpa [upward] using hdot.symm
  · simpa [root] using hslash.symm

/-- Names below the working directory, a directory above it, or the root. -/
inductive Place.IsProper : Place → Prop where
  | top {q : Place} : q.isTop = true → IsProper q
  | name {q : Place} {s : String} : Path.isPlain s = true → IsProper q → IsProper (s :: q)

namespace Path

variable {q : Place}

/-- A step is a name, or it leads nowhere else, one directory up, or to a top. -/
theorem isPlain_or_follow (hq : q.IsProper) (s : String) : isPlain s = true ∨
    q.follow s = q ∨ q.follow s = q.tail ∨ (q.follow s).isTop = true := by
  by_cases hi : isIdle s = true
  · exact .inr (.inl (follow_of_isIdle hi q))
  by_cases hu : s = upward
  · refine .inr (.inr ?_)
    have hf : q.follow s = q.up := by rw [Place.follow, if_neg hi, if_pos hu]
    rw [hf]
    cases hq with
    | top ht =>
      right
      rcases Bool.or_eq_true _ _ ▸ ht with ht | ht
      · rw [beq_iff_eq] at ht
        subst ht
        decide
      · rw [List.all_eq_true] at ht
        have hup : q.up = upward :: q := by
          cases q with
          | nil => rfl
          | cons name rest =>
            have hn : name = upward := by simpa using ht name List.mem_cons_self
            subst hn
            rfl
        rw [hup, Place.isTop, List.all_cons, List.all_eq_true.mpr ht]
        simp
    | name hs _ =>
      obtain ⟨-, h₂, h₃⟩ := isPlain_iff.mp hs
      left
      rw [Place.up, if_neg h₃, if_neg h₂, List.tail_cons]
  by_cases hr : s = root
  · refine .inr (.inr (.inr ?_))
    rw [Place.follow, if_neg hi, if_neg hu, if_pos hr]
    decide
  · exact .inl (isPlain_iff.mpr ⟨Bool.not_eq_true _ ▸ hi, hu, hr⟩)

theorem isProper_follow (hq : q.IsProper) (s : String) : (q.follow s).IsProper := by
  rcases isPlain_or_follow hq s with hs | hs | hs | hs
  · rw [Place.follow_of_plain q hs]
    exact .name hs hq
  · rw [hs]
    exact hq
  · rw [hs]
    cases hq with
    | top ht => exact .top (Tree.isTop_tail ht)
    | name _ hq => exact hq
  · exact .top hs

theorem isProper_foldl (hq : q.IsProper) (p : Path) : (p.foldl Place.follow q).IsProper := by
  induction p generalizing q with
  | nil => exact hq
  | cons s p ih => exact ih (isProper_follow hq s)

theorem isProper_place (p : Path) : p.place.IsProper := isProper_foldl (.top rfl) p

end Path

/-! ## Walks by way of nodes -/

namespace Tree

variable {t u : Tree} {p : Path} {q r : Place}

/-- One step further from a place. -/
def go (t : Tree) (q : Place) (s : String) : Except FileFault Place :=
  match t.node? q with
  | none => .error .missing
  | some (.file _) => .error .notDirectory
  | some .directory =>
    if Path.isPlain s = true ∧ Path.maxNameSize < s.utf8ByteSize then .error .tooLong
    else .ok (q.follow s)

theorem step_eq_go (t : Tree) (q : Place) (s : String) :
    t.step (q, t.branch? q) s = (t.go q s).map fun r => (r, t.branch? r) := by
  unfold step go node?
  cases hq : t.branch? q with
  | none => rfl
  | some b =>
    cases b with
    | file c => rfl
    | directory es =>
      simp only [Option.map_some, Branch.node]
      by_cases hs : Path.isPlain s = true
      · simp only [hs, if_true, true_and]
        split
        · rfl
        · rw [Place.follow_of_plain q hs, Except.map, branch?_cons t hq hs]
      · simp only [hs, Bool.false_eq_true, if_false, false_and]
        by_cases hi : Path.isIdle s = true
        · simp only [hi, if_true, Except.map, Path.follow_of_isIdle hi, hq]
        · simp only [hi, Bool.false_eq_true, if_false, Except.map]

theorem walk_eq_go (t : Tree) (q : Place) (p : Path) :
    p.foldlM t.step (q, t.branch? q) = (p.foldlM t.go q).map fun r => (r, t.branch? r) := by
  induction p generalizing q with
  | nil => rfl
  | cons s p ih =>
    rw [List.foldlM_cons, List.foldlM_cons, step_eq_go]
    cases t.go q s with
    | error f => rfl
    | ok r => exact ih r

/-- Where a path leads, by way of what it meets. -/
theorem locate_eq (t : Tree) (p : Path) : t.locate p =
    if p = [] then .error .missing
    else if p.hasNul then .error .nulByte
    else if Path.maxSize < p.size then .error .tooLong
    else p.foldlM t.go [] := by
  rw [locate, walk_eq_go]
  cases p.foldlM t.go [] <;> rfl

theorem go_eq_ok {s : String} (h : t.go q s = .ok r) :
    t.node? q = some .directory ∧ r = q.follow s := by
  unfold go at h
  split at h
  · exact nomatch h
  · exact nomatch h
  · split at h
    · exact nomatch h
    · exact ⟨‹_›, (Except.ok.inj h).symm⟩

theorem walk_eq_ok (h : p.foldlM t.go q = .ok r) : r = p.foldl Place.follow q := by
  induction p generalizing q with
  | nil => exact (Except.ok.inj h).symm
  | cons s p ih =>
    rw [List.foldlM_cons] at h
    cases hs : t.go q s with
    | error f => rw [hs] at h; exact nomatch h
    | ok q' =>
      rw [hs] at h
      rw [List.foldl_cons, ← (go_eq_ok hs).2]
      exact ih h

/-- A step is taken alike from places where the same stands. -/
theorem go_congr (h : u.node? q = t.node? q) (s : String) : u.go q s = t.go q s := by
  unfold go
  rw [h]

theorem walk_congr (h : Agree (· ∈ p.passedFrom q) t u) : p.foldlM u.go q = p.foldlM t.go q := by
  induction p generalizing q with
  | nil => rfl
  | cons s p ih =>
    rw [List.foldlM_cons, List.foldlM_cons, go_congr (h q List.mem_cons_self)]
    cases hs : t.go q s with
    | error f => rfl
    | ok r =>
      rw [(go_eq_ok hs).2]
      exact ih (h.mono fun r hr => List.mem_cons_of_mem _ hr)

/-- A path leads as far where the same stands on its way. -/
theorem locate_congr (h : Agree (· ∈ p.passes) t u) : u.locate p = t.locate p := by
  rw [locate_eq, locate_eq, walk_congr h]

/-! ## More directories -/

/-- The directories of `t` are directories of `u`. -/
def Grows (t u : Tree) : Prop := ∀ q, t.node? q = some .directory → u.node? q = some .directory

theorem Grows.refl (t : Tree) : Grows t t := fun _ h => h

theorem Grows.trans {v : Tree} (h : Grows t u) (h' : Grows u v) : Grows t v :=
  fun q hq => h' q (h q hq)

theorem grows_of_agree (h : Agree (· ≠ q) t u) (hq : t.node? q ≠ some .directory) : Grows t u := by
  intro r hr
  rw [h r fun he => hq (he ▸ hr)]
  exact hr

theorem walk_mono (h : Grows t u) (hw : p.foldlM t.go q = .ok r) : p.foldlM u.go q = .ok r := by
  induction p generalizing q with
  | nil => exact hw
  | cons s p ih =>
    rw [List.foldlM_cons] at hw ⊢
    cases hs : t.go q s with
    | error f => rw [hs] at hw; exact nomatch hw
    | ok q' =>
      have hdir := (go_eq_ok hs).1
      rw [hs] at hw
      rw [go_congr ((h q hdir).trans hdir.symm) s, hs]
      exact ih hw

theorem locate_eq_ok (h : t.locate p = .ok q) : p ≠ [] ∧ p.hasNul = false ∧
    p.size ≤ Path.maxSize ∧ p.foldlM t.go [] = .ok q := by
  rw [locate_eq] at h
  split at h
  · exact nomatch h
  split at h
  · exact nomatch h
  split at h
  · exact nomatch h
  · exact ⟨‹_›, Bool.not_eq_true _ ▸ ‹¬p.hasNul = true›, Nat.le_of_not_lt ‹_›, h⟩

theorem locate_of_walk (hp : p ≠ []) (hn : p.hasNul = false) (hs : p.size ≤ Path.maxSize)
    (h : p.foldlM t.go [] = .ok q) : t.locate p = .ok q := by
  rw [locate_eq, if_neg hp, hn, if_neg Bool.false_ne_true, if_neg (Nat.not_lt.mpr hs), h]

/-- A path leads where it did if there are more directories. -/
theorem locate_mono (h : Grows t u) (hl : t.locate p = .ok q) : u.locate p = .ok q := by
  obtain ⟨hp, hn, hs, hw⟩ := locate_eq_ok hl
  exact locate_of_walk hp hn hs (walk_mono h hw)

/-- A short name leads to its place in the working directory. -/
theorem locate_name (t : Tree) {s : String} (hs : Path.isPlain s = true)
    (nul : s.toList.contains '\x00' = false) (short : s.utf8ByteSize ≤ Path.maxNameSize)
    (fits : Path.size [s] ≤ Path.maxSize) : t.locate [s] = .ok [s] := by
  have hnul : Path.hasNul [s] = false := by
    rw [Path.hasNul, List.any_cons, nul]
    rfl
  have hgo : t.go [] s = .ok [s] := by
    unfold go
    rw [node?_of_isTop _ rfl, Place.follow_of_plain _ hs]
    exact if_neg fun hlong => absurd short (Nat.not_le.mpr hlong.2)
  refine locate_of_walk (by simp) hnul fits ?_
  rw [List.foldlM_cons, hgo]
  rfl

theorem walk_append {p' : Path} (q : Place) :
    (p ++ p').foldlM t.go q = (p.foldlM t.go q).bind fun r => p'.foldlM t.go r := by
  rw [List.foldlM_append]
  rfl

theorem go_proper {s : String} (hq : q.IsProper) (h : t.go q s = .ok r) (hr : t.node? r = none) :
    t.node? r.tail = some .directory := by
  obtain ⟨hdir, rfl⟩ := go_eq_ok h
  cases Path.isPlain_or_follow hq s with
  | inl hs =>
    rw [Place.follow_of_plain q hs]
    exact hdir
  | inr hs =>
    -- no other step leads from a directory to where nothing stands
    rcases hs with hs | hs | hs
    · rw [hs, hdir] at hr
      exact nomatch hr
    · rw [hs, node?_tail hdir] at hr
      exact nomatch hr
    · rw [node?_of_isTop t hs] at hr
      exact nomatch hr

/-- Where a path leads to nothing, it leads to nothing in a directory. -/
theorem node?_tail_of_locate (h : t.locate p = .ok q) (hq : t.node? q = none) :
    t.node? q.tail = some .directory := by
  obtain ⟨hp, -, -, hw⟩ := locate_eq_ok h
  obtain ⟨init, s, rfl⟩ := List.eq_nil_or_concat p |>.resolve_left hp
  rw [List.concat_eq_append, walk_append] at hw
  cases hi : init.foldlM t.go [] with
  | error f => rw [hi] at hw; exact nomatch hw
  | ok r =>
    rw [hi] at hw
    have hs : t.go r s = .ok q := by
      have hs : List.foldlM t.go r [s] = .ok q := hw
      rw [List.foldlM_cons] at hs
      cases hr : t.go r s with
      | error f => rw [hr] at hs; exact nomatch hs
      | ok q' => rw [hr] at hs; exact hs
    refine go_proper ?_ hs hq
    rw [walk_eq_ok hi]
    exact Path.isProper_place init

end Tree

end OvertimeNotice
