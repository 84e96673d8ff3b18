import OvertimeNotice.Proofs.Files.Changes

/-!
# Files beside each other

Where one path can be walked to its last step, so can a path with another last step: it fails only
for what that step is. What is read there does not depend on the files beside it.

* `Tree.locate_beside`, `Tree.locate_of_missing`: the way to a file beside another one.
* `Tree.readText_congr`: a text that other files have no part in.
* `Tree.readText_of_file`, `Tree.readText_eq_ok`: a text and the content of the file.
-/

namespace OvertimeNotice

namespace Path

variable {p : Path} {q r : Place} {s s' : String}

theorem mem_passedFrom_concat :
    r ∈ passedFrom q (p ++ [s]) ↔ r ∈ passedFrom q p ∨ r = (p ++ [s]).foldl Place.follow q := by
  induction p generalizing q with
  | nil => simp [passedFrom]
  | cons s' p ih =>
    simp only [List.cons_append, passedFrom, List.mem_cons, ih, List.foldl_cons, or_assoc]

theorem mem_passes_concat : r ∈ passes (p ++ [s]) ↔ r ∈ p.passes ∨ r = place (p ++ [s]) :=
  mem_passedFrom_concat

/-- The steps of a path before those in its directory. -/
def stem (p : Path) : Path := if p.getLast? = some "" then p.dropLast else p

theorem child_eq (p : Path) (s : String) : p.child s = p.stem ++ [s] := rfl

/-- The bytes of a path with one more name: those of the name, after a slash. -/
theorem size_concat (p : Path) (h : isPlain s = true) :
    size (p ++ [s]) = size (p ++ [""]) + s.utf8ByteSize := by
  have hroot : (s != root) = true := bne_iff_ne.mpr (isPlain_iff.mp h).2.2
  have hempty : ("" != root) = true := by decide
  simp [size, List.filter_append, hroot, hempty]
  omega

theorem size_blank_le (p : Path) : size (p ++ [""]) ≤ p.size + 1 := by
  have hempty : ("" != root) = true := by decide
  simp [size, List.filter_append, hempty]
  omega

theorem size_concat_le (p : Path) (h : isPlain s = true) (h' : isPlain s' = true)
    (hle : s.utf8ByteSize ≤ s'.utf8ByteSize) : size (p ++ [s]) ≤ size (p ++ [s']) := by
  rw [size_concat _ h, size_concat _ h']
  omega

theorem stem_concat (h : s ≠ "") : stem (p ++ [s]) = p ++ [s] := by
  rw [stem, List.getLast?_concat, if_neg (by simpa using h)]

end Path

namespace Tree

variable {t u : Tree} {p p' : Path} {q : Place} {s s' text : String} {c : Content}

/-! ## The way -/

/-- A path that can be walked to its end leads through a directory before its last step. -/
theorem walk_of_locate_concat (h : t.locate (p ++ [s]) = .ok q) :
    p.foldlM t.go [] = .ok p.place ∧ t.node? p.place = some .directory ∧
      (Path.isPlain s = true → s.utf8ByteSize ≤ Path.maxNameSize) := by
  obtain ⟨-, -, -, hw⟩ := locate_eq_ok h
  rw [walk_append] at hw
  cases hp : p.foldlM t.go [] with
  | error f => rw [hp] at hw; exact nomatch hw
  | ok r =>
    obtain rfl : r = p.place := walk_eq_ok hp
    rw [hp] at hw
    have hs : t.go p.place s = .ok q := by
      have hs : List.foldlM t.go p.place [s] = .ok q := hw
      rw [List.foldlM_cons] at hs
      cases hr : t.go p.place s with
      | error f => rw [hr] at hs; exact nomatch hs
      | ok q' => rw [hr] at hs; exact hs
    have hd := (go_eq_ok hs).1
    refine ⟨rfl, hd, fun hplain => Nat.le_of_not_lt fun hlong => ?_⟩
    rw [go, hd] at hs
    simp only [hplain, hlong, and_self, if_true] at hs
    exact nomatch hs

/-- All that a path passes on the way to a directory are directories. -/
theorem node?_of_mem_passedFrom (hw : p.foldlM t.go q = .ok (p.foldl Place.follow q))
    (hd : t.node? (p.foldl Place.follow q) = some .directory) :
    ∀ r ∈ p.passedFrom q, t.node? r = some .directory := by
  induction p generalizing q with
  | nil =>
    intro r hr
    rw [List.mem_singleton.mp hr]
    exact hd
  | cons s p ih =>
    rw [List.foldlM_cons] at hw
    cases hs : t.go q s with
    | error f => rw [hs] at hw; exact nomatch hw
    | ok r =>
      obtain ⟨hq, rfl⟩ := go_eq_ok hs
      rw [hs] at hw
      exact List.forall_mem_cons.mpr ⟨hq, ih hw hd⟩

theorem node?_of_mem_passes (h : t.locate (p ++ [s]) = .ok q) :
    ∀ r ∈ p.passes, t.node? r = some .directory := by
  obtain ⟨hw, hd, -⟩ := walk_of_locate_concat h
  exact node?_of_mem_passedFrom hw hd

/-- A short name leads where it can beside a path that leads somewhere. -/
theorem locate_beside (h : t.locate (p ++ [s]) = .ok q) (plain : Path.isPlain s' = true)
    (nul : s'.toList.contains '\x00' = false) (short : s'.utf8ByteSize ≤ Path.maxNameSize)
    (fits : Path.size (p ++ [s']) ≤ Path.maxSize) :
    t.locate (p ++ [s']) = .ok (Path.place (p ++ [s'])) := by
  obtain ⟨hw, hd, -⟩ := walk_of_locate_concat h
  have hn : Path.hasNul (p ++ [s']) = false := by
    have hp := hasNul_of_locate t h
    simp only [Path.hasNul, List.any_append, Bool.or_eq_false_iff] at hp ⊢
    exact ⟨hp.1, by simpa using nul⟩
  refine locate_of_walk (by simp) hn fits ?_
  rw [walk_append, hw, Path.place_append, Place.follow_of_plain _ plain]
  show List.foldlM t.go p.place [s'] = _
  rw [List.foldlM_cons, go, hd]
  simp only [plain, Nat.not_lt.mpr short, and_false, if_false, Place.follow_of_plain _ plain]
  rfl

/-- A name leads where a longer one does. -/
theorem locate_shorter (h : t.locate (p ++ [s ++ s']) = .ok q) (hs : Path.isPlain s = true)
    (hs' : Path.isPlain (s ++ s') = true) : t.locate (p ++ [s]) = .ok (Path.place (p ++ [s])) := by
  obtain ⟨-, -, hshort⟩ := walk_of_locate_concat h
  obtain ⟨-, hn, hsize, -⟩ := locate_eq_ok h
  have hle : s.utf8ByteSize ≤ (s ++ s').utf8ByteSize := by
    rw [String.utf8ByteSize_append]
    exact Nat.le_add_right _ _
  refine locate_beside h hs ?_ (Nat.le_trans hle (hshort hs'))
    (Nat.le_trans (Path.size_concat_le p hs hs' hle) hsize)
  simp only [Path.hasNul, List.any_append, List.any_cons, List.any_nil, Bool.or_false,
    Bool.or_eq_false_iff, String.toList_append, List.contains_append] at hn
  exact hn.2.1

/-- Where nothing is beside a path that leads somewhere, something could be. -/
theorem locate_of_missing (h : t.locate (p ++ [s]) = .ok q)
    (hm : t.readText (p ++ [s']) = .error .missing) :
    t.locate (p ++ [s']) = .ok (Path.place (p ++ [s'])) ∧
      t.node? (Path.place (p ++ [s'])) = none := by
  obtain ⟨hw, hd, -⟩ := walk_of_locate_concat h
  have hlast : t.go p.place s' ≠ .error .missing := by
    rw [go, hd]
    simp only
    split <;> exact nofun
  have hmissing : t.locate (p ++ [s']) ≠ .error .missing := by
    rw [locate_eq, if_neg (by simp), walk_append, hw]
    split
    · exact nofun
    · split
      · exact nofun
      · intro h
        refine hlast ?_
        have h' : List.foldlM t.go p.place [s'] = .error .missing := h
        rw [List.foldlM_cons] at h'
        cases hs : t.go p.place s' with
        | error f => rw [hs] at h'; exact h'
        | ok r => rw [hs] at h'; exact nomatch h'
  rw [readText] at hm
  cases hl : t.locate (p ++ [s']) with
  | error f =>
    simp only [hl, Except.error.injEq] at hm
    exact absurd (hm ▸ hl) hmissing
  | ok r =>
    obtain rfl := locate_eq_place t hl
    simp only [hl] at hm
    refine ⟨rfl, ?_⟩
    split at hm
    · assumption
    · exact nomatch hm
    · split at hm <;> exact nomatch hm

/-! ## Texts -/

theorem readText_of_file (hl : t.locate p = .ok p.place)
    (hn : t.node? p.place = some (.file c)) :
    t.readText p = (c.text?.map Except.ok).getD (.error .notText) := by
  simp only [readText, hl, hn]
  cases c.text? <;> rfl

theorem readText_eq_ok (h : t.readText p = .ok text) :
    t.locate p = .ok p.place ∧ ∃ c, t.node? p.place = some (.file c) ∧ c.text? = some text := by
  rw [readText] at h
  cases hl : t.locate p with
  | error f => simp only [hl] at h; exact nomatch h
  | ok q =>
    obtain rfl := locate_eq_place t hl
    simp only [hl] at h
    refine ⟨rfl, ?_⟩
    split at h
    · exact nomatch h
    · exact nomatch h
    · rename_i c hn
      refine ⟨c, hn, ?_⟩
      split at h
      · rename_i hc
        rw [hc, Except.ok.inj h]
      · exact nomatch h

/-- What is read depends on the file and on the way to it, which is beside a path that leads
somewhere. -/
theorem readText_congr (h : t.locate (p ++ [s]) = .ok q) (hg : t.Grows u)
    (hp : ∀ r ∈ p'.passes, r ∈ p.passes ∨ r = p'.place)
    (hn : u.node? p'.place = t.node? p'.place) : u.readText p' = t.readText p' := by
  have hl : u.locate p' = t.locate p' := by
    refine locate_congr fun r hr => ?_
    rcases hp r hr with hr | rfl
    · have hd := node?_of_mem_passes h r hr
      rw [hd, hg r hd]
    · exact hn
  rw [readText, readText, hl]
  cases hq : t.locate p' with
  | error f => rfl
  | ok q =>
    obtain rfl := locate_eq_place t hq
    simp only [hn]

end Tree

end OvertimeNotice
