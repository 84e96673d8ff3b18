import OvertimeNotice.Proofs.Files.Ways

/-!
# Changes of single files

What stands where after a file is written, removed or moved. None of these changes a directory.

* `Tree.node?_writeText`, `Tree.node?_removeFile`, `Tree.node?_moveFile`: the nodes afterwards.
-/

namespace OvertimeNotice

theorem Content.text?_ofText (x : String) : (Content.ofText x).text? = some x := by
  rw [Content.ofText, Content.text?, String.fromUTF8?, String.toUTF8_eq_toByteArray,
    dif_pos x.isValidUTF8]
  rfl

namespace Tree

variable {t u : Tree} {p p' : Path} {c : Content} {text : String}

theorem node?_set_of_locate (h : t.locate p = .ok p.place) (hn : t.node? p.place ≠ some .directory)
    (r : Place) : (t.set p.place (.file c)).node? r =
      if r = p.place then some (.file c) else t.node? r := by
  cases hq : t.node? p.place with
  | none => exact node?_set_new hq (node?_tail_of_locate h hq) _ r
  | some n =>
    cases n with
    | directory => exact absurd hq hn
    | file c' => exact node?_set_file hq _ r

/-- A file is written where its path leads. -/
theorem node?_writeText (h : t.writeText p text = .ok u) : t.locate p = .ok p.place ∧
    t.node? p.place ≠ some .directory ∧
      ∀ r, u.node? r = if r = p.place then some (.file (.ofText text)) else t.node? r := by
  rw [writeText] at h
  cases hl : t.locate p with
  | error f => simp only [hl] at h; exact nomatch h
  | ok q =>
    obtain rfl : q = p.place := locate_eq_place t hl
    simp only [hl] at h
    split at h
    · exact nomatch h
    · rename_i hn
      obtain rfl := Except.ok.inj h
      exact ⟨rfl, hn, node?_set_of_locate hl hn⟩

theorem node?_removeFile (h : t.removeFile p = .ok u) :
    (∃ c, t.node? p.place = some (.file c)) ∧
      ∀ r, u.node? r = if r = p.place then none else t.node? r := by
  rw [removeFile] at h
  cases hl : t.locate p with
  | error f => simp only [hl] at h; exact nomatch h
  | ok q =>
    obtain rfl : q = p.place := locate_eq_place t hl
    simp only [hl] at h
    cases hn : t.node? p.place with
    | none => simp only [hn] at h; exact nomatch h
    | some n =>
      cases n with
      | directory => simp only [hn] at h; exact nomatch h
      | file c =>
        simp only [hn] at h
        obtain rfl := Except.ok.inj h
        exact ⟨⟨c, rfl⟩, node?_erase t hn⟩

/-- A file that is moved takes the place of a file, or of nothing. -/
theorem node?_moveFile (h : t.moveFile p p' = .ok u) (hn : t.node? p.place = some (.file c))
    (hne : p.place ≠ p'.place) : t.node? p'.place ≠ some .directory ∧
      ∀ r, u.node? r = if r = p'.place then some (.file c)
        else if r = p.place then none else t.node? r := by
  rw [moveFile] at h
  cases hl : t.locate p with
  | error f => simp only [hl] at h; exact nomatch h
  | ok q =>
    obtain rfl : q = p.place := locate_eq_place t hl
    cases hl' : t.locate p' with
    | error f => simp only [hl, hl'] at h; exact nomatch h
    | ok q' =>
      obtain rfl : q' = p'.place := locate_eq_place t hl'
      simp only [hl, hl', hn, reduceCtorEq, if_false] at h
      split at h
      · exact nomatch h
      · rename_i hd
        obtain rfl := Except.ok.inj h
        have herase := node?_erase t hn
        have hat : (t.erase p.place).node? p'.place = t.node? p'.place := by
          rw [herase, if_neg hne.symm]
        refine ⟨hd, fun r => ?_⟩
        cases hq : t.node? p'.place with
        | none =>
          have hup := node?_tail_of_locate hl' hq
          have hup' : (t.erase p.place).node? p'.place.tail = some .directory := by
            rw [herase, if_neg, hup]
            intro he
            rw [he, hn] at hup
            exact nomatch hup
          rw [node?_set_new (hat.trans hq) hup', herase]
        | some n =>
          cases n with
          | directory => exact absurd hq hd
          | file c' => rw [node?_set_file (hat.trans hq), herase]

/-- No directory is lost where only other nodes change. -/
theorem grows_of_nodes (h : ∀ r, u.node? r = t.node? r ∨ t.node? r ≠ some .directory) :
    Grows t u := by
  intro r hr
  rcases h r with h | h
  · rw [h, hr]
  · exact absurd hr h

theorem grows_writeText (h : t.writeText p text = .ok u) : Grows t u := by
  obtain ⟨-, hn, hnodes⟩ := node?_writeText h
  exact grows_of_agree (fun r hr => (hnodes r).trans (if_neg hr)) hn

end Tree

end OvertimeNotice
