import OvertimeNotice.Proofs.State.FlagStore

/-!
# A mark added to a file

The file of a month may hold more than marks: keys that no marker has, employees without keys,
another month. A mark that is recorded adds its key, and everything else in the file stays. The
files of other months stay as they are.

* `FlagFiles.CanReplace`: nothing is in the way of a new file for a month.
* `FlagFiles.Replaced`: a tree with a new file for a month; `FlagFiles.CanReplace.write`: what its
  months read as.
* `FlagFiles.upsert_adds`: what a mark does to a file that can be read.
-/

namespace OvertimeNotice

/-! ## Contents -/

namespace MonthFile

variable {f : MonthFile} {e : Mark}

/-- Every employee that `f` lists is listed in `g`, with the same keys at least. -/
def StaysIn (f g : MonthFile) : Prop :=
  ∀ employee ks, f.entries.find? employee = some ks →
    ∃ ks', g.entries.find? employee = some ks' ∧ ∀ k ∈ ks, k ∈ ks'

theorem StaysIn.refl (f : MonthFile) : f.StaysIn f := fun _ ks h => ⟨ks, h, fun _ hk => hk⟩

theorem staysIn_insert (f : MonthFile) (e : Mark) : f.StaysIn (f.insert e) := by
  intro employee ks h
  rw [insert, TextMap.find?_insert]
  by_cases he : employee = e.employee
  · subst he
    rw [if_pos rfl]
    refine ⟨_, rfl, fun k hk => TextSet.mem_insert.mpr (.inr ?_)⟩
    rwa [keysOf, h, Option.getD_some]
  · rw [if_neg he]
    exact ⟨ks, h, fun _ hk => hk⟩

theorem contains_insert (f : MonthFile) (e : Mark) :
    ((f.insert e).keysOf e.employee).contains e.marker.key = true := by
  rw [keysOf_insert, if_pos rfl]
  exact TextSet.contains_iff.mpr (TextSet.mem_insert.mpr (.inl rfl))

end MonthFile

namespace FlagFiles

variable {s : FlagFiles} {t u : Tree} {m : Month} {e : Mark} {file : MonthFile}

/-! ## Files -/

/-- Nothing is in the way of a new file for a month: a temporary file can be written beside it. -/
structure CanReplace (s : FlagFiles) (m : Month) (t : Tree) : Prop where
  locate : t.locate (s.temporary m) = .ok (s.temporary m).place
  node : t.node? (s.temporary m).place ≠ some .directory

theorem CanReplace.locate_path (h : s.CanReplace m t) :
    t.locate (s.path m) = .ok (s.path m).place :=
  Tree.locate_shorter h.locate (isPlain_fileName m) (isPlain_temporary m)

theorem readToAmend_of_read (hread : s.read m t = .ok file) : s.readToAmend m t = .ok file := by
  rw [readToAmend, hread]

/-- No mark can be added where the file of a month is a directory. -/
theorem CanReplace.node?_path (h : s.CanReplace m t) (hread : s.readToAmend m t = .ok file) :
    t.node? (s.path m).place ≠ some .directory := by
  intro hd
  have htext : t.readText (s.path m) = .error .isDirectory := by
    simp only [Tree.readText, h.locate_path, hd]
  simp only [readToAmend, read, htext, reduceCtorEq] at hread

/-- The file of a month is new, its temporary file is gone, and all else is as before. -/
def Replaced (s : FlagFiles) (m : Month) (file : MonthFile) (t u : Tree) : Prop :=
  ∀ q, u.node? q =
    if q = (s.path m).place then some (.file (.ofText file.toJson.pretty))
    else if q = (s.temporary m).place then none
    else t.node? q

/-- The file of a month is replaced if its temporary file can be written. -/
theorem CanReplace.replaced (h : s.CanReplace m t) (hread : s.readToAmend m t = .ok file)
    (file' : MonthFile) :
    ∃ u, s.write m file' t = (.ok (), u) ∧ t.Grows u ∧ s.Replaced m file' t u := by
  have hpath := h.locate_path
  have htemporary := h.locate
  have hfile := h.node?_path hread
  have hnode := h.node
  rw [place_path] at hpath hfile
  rw [place_temporary] at htemporary hnode
  obtain ⟨u, hw, hg, hu⟩ := write_of_locate hpath htemporary file' hfile hnode
  refine ⟨u, hw, hg, fun q => ?_⟩
  rw [place_path, place_temporary]
  exact hu q

/-- The text of a file that was written is that of its content. -/
theorem CanReplace.readText (h : s.CanReplace m t) (hg : t.Grows u) (hu : s.Replaced m file t u) :
    u.readText (s.path m) = .ok file.toJson.pretty := by
  have hnode : u.node? (s.path m).place = some (.file (.ofText file.toJson.pretty)) := by
    rw [hu, if_pos rfl]
  rw [Tree.readText_of_file (Tree.locate_mono hg h.locate_path) hnode, Content.text?_ofText]
  rfl

/-- A file that was written reads as what was written, and the files of other months as before. -/
theorem CanReplace.write (h : s.CanReplace m t) (hread : s.read m t = .ok file)
    (file' : MonthFile) (hm : ∀ month ∈ file'.month, month.IsPlain) :
    ∃ u, s.write m file' t = (.ok (), u) ∧ s.read m u = .ok file' ∧
      ∀ month, month ≠ m → s.load month u = s.load month t := by
  obtain ⟨u, hw, hg, hu⟩ := h.replaced (readToAmend_of_read hread) file'
  refine ⟨u, hw, ?_, fun month hne => load_of_locate h.locate hg ?_⟩
  · simp only [read, h.readText hg hu, MonthFile.parse_pretty hm]
  · have hnot := not_written (s := s) hne
    rw [hu, place_path, place_temporary, if_neg fun hq => hnot (.inl hq),
      if_neg fun hq => hnot (.inr hq)]

/-! ## Recording a mark -/

theorem upsert_of_contains (hread : s.read e.month t = .ok file)
    (hk : (file.keysOf e.employee).contains e.marker.key = true) : s.upsert e t = (.ok (), t) := by
  simp only [upsert, readToAmend, hread, if_pos hk]

/-- Also over a corrupt file, which is amended as an empty one. -/
theorem upsert_of_amend (hread : s.readToAmend e.month t = .ok file)
    (hk : ¬(file.keysOf e.employee).contains e.marker.key = true) :
    s.upsert e t = s.write e.month (file.insert e) t := by
  simp only [upsert, hread, if_neg hk]

theorem upsert_of_not_contains (hread : s.read e.month t = .ok file)
    (hk : ¬(file.keysOf e.employee).contains e.marker.key = true) :
    s.upsert e t = s.write e.month (file.insert e) t :=
  upsert_of_amend (readToAmend_of_read hread) hk

theorem load_of_read (hread : s.read m t = .ok file) : s.load m t = .ok (file.marks m) := by
  rw [load, hread]
  rfl

/-- **A mark is added to what the file of its month records**, and nothing goes. Every employee and
every key of the file stays, also those that tell no mark. The other months read as before, and the
same mark once more changes nothing. -/
theorem upsert_adds (h : s.CanReplace e.month t) (hm : e.month.IsPlain)
    (hn : e.marker ≠ .level .none) (hread : s.read e.month t = .ok file) :
    ∃ u before after file', s.upsert e t = (.ok (), u) ∧
      s.load e.month t = .ok before ∧ s.load e.month u = .ok after ∧
      (∀ x, x ∈ after ↔ x = e ∨ x ∈ before) ∧
      s.read e.month u = .ok file' ∧ file.StaysIn file' ∧
      (∀ m, m ≠ e.month → s.load m u = s.load m t) ∧
      s.upsert e u = (.ok (), u) := by
  by_cases hk : (file.keysOf e.employee).contains e.marker.key = true
  · have hu := upsert_of_contains hread hk
    have hload := load_of_read hread
    refine ⟨t, _, _, file, hu, hload, hload, fun x => ?_, hread, .refl file, fun _ _ => rfl, hu⟩
    rw [or_iff_right_of_imp]
    rintro rfl
    exact MonthFile.mem_marks_of_contains hn hk
  · obtain ⟨u, hw, hread', hothers⟩ := h.write hread (file.insert e) fun month hmonth =>
      Option.some.inj hmonth ▸ hm
    exact ⟨u, _, _, _, (upsert_of_not_contains hread hk).trans hw, load_of_read hread,
      load_of_read hread', fun _ => MonthFile.mem_marks_insert hn, hread',
      MonthFile.staysIn_insert file e, hothers,
      upsert_of_contains hread' (MonthFile.contains_insert file e)⟩

private def flagDir : FlagFiles := ⟨"flags"⟩

private def amendedMonth : Month := (Month.of? 2026 10).getD default

/-- A file of another month, with a key in an unusual form, one of no marker, and an employee
without keys. -/
private def oddFile : MonthFile where
  month := Month.of? 2025 1
  entries := .ofList [("1001", .ofList ["060", "x"]), ("1002", .empty)]

private def oddTree : Tree :=
  ⟨[("flags", .directory [(fileName amendedMonth, .file (.ofText oddFile.toJson.pretty))])]⟩

private def addedMark : Mark := ⟨"1001", amendedMonth, .level .p90⟩

theorem upsert_adds_sample : ∃ u after file', flagDir.upsert addedMark oddTree = (.ok (), u) ∧
    flagDir.load amendedMonth u = .ok after ∧
      (∀ x, x ∈ after ↔ x = addedMark ∨ x = ⟨"1001", amendedMonth, .level .p60⟩) ∧
    flagDir.read amendedMonth u = .ok file' ∧ oddFile.StaysIn file' := by
  have hread : flagDir.read amendedMonth oddTree = .ok oddFile := by decide +kernel
  have hload : flagDir.load amendedMonth oddTree =
      .ok [⟨"1001", amendedMonth, .level .p60⟩] := by
    rw [load_of_read hread]
    decide +kernel
  obtain ⟨u, before, after, file', hu, hbefore, hafter, hmem, hread', hstays, -⟩ :=
    upsert_adds (e := addedMark) (t := oddTree) ⟨by decide +kernel, by decide +kernel⟩
      (by decide) (by decide) hread
  rw [show addedMark.month = amendedMonth from rfl, hload] at hbefore
  obtain rfl := Except.ok.inj hbefore
  exact ⟨u, after, file', hu, hafter, fun x => by rw [hmem, List.mem_singleton], hread', hstays⟩

end FlagFiles

end OvertimeNotice
