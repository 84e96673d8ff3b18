import OvertimeNotice.Proofs.State.FlagStore
import OvertimeNotice.Proofs.State.PlainSet

/-!
# Flag files as a set of marks

In a directory of its own, with room for the paths of its files, a store has one file for each month
that a set has marks of, with the keys of those marks, and no other file. Its answers are those of
the set.

* `MonthFile.Records`: a file has the keys of the marks of a month.
* `FlagFiles.Holds`: the files stand for a set; `holds_of_empty`, `Holds.upsert`, `Holds.purge` for
  how it begins and what becomes of it.
* `FlagFiles.keeps_flagFiles`: as a backend, the store keeps a set of marks.
-/

namespace OvertimeNotice

/-! ## One file -/

namespace MonthFile

/-- The keys of a file are those of the marks of a month in a set. -/
def Records (f : MonthFile) (marks : Finset Mark) (month : Month) : Prop :=
  ∀ employee k, k ∈ f.keysOf employee ↔
    ∃ x ∈ marks, x.month = month ∧ x.employee = employee ∧ x.marker.key = k

variable {f : MonthFile} {marks : Finset Mark} {month : Month} {e x : Mark}

theorem records_empty (h : ∀ x ∈ marks, x.month ≠ month) : empty.Records marks month := by
  intro employee k
  refine iff_of_false TextSet.not_mem_empty ?_
  rintro ⟨x, hx, hm, -⟩
  exact h x hx hm

/-- A key that is listed under an employee tells a mark of the set. -/
theorem Records.of_listed (h : f.Records marks month) (hc : ∀ x ∈ marks, x.IsCommon)
    {employee k : String} {ks : TextSet} (hks : (employee, ks) ∈ f.entries.toList)
    (hk : k ∈ ks.toList)
    (hx : (Marker.ofKey? k).map (fun marker => ⟨employee, month, marker⟩) = some x) :
    x.employee = employee ∧ x.marker.key = k := by
  have hfind : f.keysOf employee = ks := by
    rw [keysOf, TextMap.mem_toList.mp hks]
    rfl
  obtain ⟨y, hy, -, -, hkey⟩ := (h employee k).mp (hfind ▸ hk)
  rw [← hkey, Marker.ofKey?_key (hc y hy).2, Option.map_some, Option.some.injEq] at hx
  rw [← hx]
  exact ⟨rfl, hkey⟩

theorem Records.mem_marks (h : f.Records marks month) (hc : ∀ x ∈ marks, x.IsCommon) (x : Mark) :
    x ∈ f.marks month ↔ x ∈ marks ∧ x.month = month := by
  rw [MonthFile.mem_marks, and_comm]
  refine and_congr_left fun hm => ?_
  constructor
  · rintro ⟨k, hk, hmarker⟩
    obtain ⟨y, hy, hmonth, hemployee, rfl⟩ := (h _ _).mp hk
    rw [Marker.ofKey?_key (hc y hy).2, Option.some.injEq] at hmarker
    have hxy : y = x := by
      cases x
      cases y
      simp_all
    exact hxy ▸ hy
  · intro hx
    exact ⟨_, (h _ _).mpr ⟨x, hx, hm, rfl, rfl⟩, Marker.ofKey?_key (hc x hx).2⟩

theorem Records.lists (h : f.Records marks month) (hc : ∀ x ∈ marks, x.IsCommon) :
    Lists marks month (f.marks month) := by
  refine ⟨?_, h.mem_marks hc⟩
  rw [MonthFile.marks, List.pairwise_flatMap]
  constructor
  · rintro ⟨employee, ks⟩ hks
    rw [List.pairwise_filterMap]
    refine ks.ascending.imp_of_mem fun {k k'} hk hk' hlt x hx y hy => ?_
    obtain ⟨hxe, rfl⟩ := h.of_listed hc hks hk hx
    obtain ⟨hye, rfl⟩ := h.of_listed hc hks hk' hy
    exact .inr ⟨hxe.trans hye.symm, hlt⟩
  · have hascending := List.pairwise_map.mp f.entries.ascending
    refine hascending.imp_of_mem fun {a a'} ha ha' hlt x hx y hy => ?_
    obtain ⟨k, hk, hx⟩ := List.mem_filterMap.mp hx
    obtain ⟨k', hk', hy⟩ := List.mem_filterMap.mp hy
    obtain ⟨hxe, -⟩ := h.of_listed hc ha hk hx
    obtain ⟨hye, -⟩ := h.of_listed hc ha' hk' hy
    rw [← hxe, ← hye] at hlt
    exact .inl hlt

/-- A file that has the key of a mark has the mark. -/
theorem Records.mem_of_contains (h : f.Records marks e.month)
    (hk : (f.keysOf e.employee).contains e.marker.key = true) : e ∈ marks := by
  obtain ⟨x, hx, hm, hemployee, hkey⟩ := (h _ _).mp (TextSet.contains_iff.mp hk)
  have hxe : x = e := by
    have hmarker := Marker.key_injective hkey
    cases x
    cases e
    simp_all
  exact hxe ▸ hx

theorem Records.insert (h : f.Records marks e.month) :
    (f.insert e).Records (Insert.insert e marks) e.month := by
  intro employee k
  rw [keysOf_insert]
  constructor
  · intro hk
    split at hk
    · rename_i he
      rcases TextSet.mem_insert.mp hk with rfl | hk
      · exact ⟨e, Finset.mem_insert_self .., rfl, he.symm, rfl⟩
      · obtain ⟨x, hx, hm, hxe, hkey⟩ := (h _ _).mp hk
        exact ⟨x, Finset.mem_insert_of_mem hx, hm, hxe.trans he.symm, hkey⟩
    · obtain ⟨x, hx, hx'⟩ := (h _ _).mp hk
      exact ⟨x, Finset.mem_insert_of_mem hx, hx'⟩
  · rintro ⟨x, hx, hm, rfl, rfl⟩
    rcases Finset.mem_insert.mp hx with rfl | hx
    · rw [if_pos rfl]
      exact TextSet.mem_insert.mpr (.inl rfl)
    · have hk := (h _ _).mpr ⟨x, hx, hm, rfl, rfl⟩
      split
      · rename_i he
        exact TextSet.mem_insert.mpr (.inr (he ▸ hk))
      · exact hk

/-- What is recorded of a month does not depend on the marks of others. -/
theorem Records.congr {marks' : Finset Mark} (h : f.Records marks month)
    (hm : ∀ x, x.month = month → (x ∈ marks' ↔ x ∈ marks)) : f.Records marks' month := by
  intro employee k
  rw [h]
  constructor
  · rintro ⟨x, hx, hmonth, hx'⟩
    exact ⟨x, (hm x hmonth).mpr hx, hmonth, hx'⟩
  · rintro ⟨x, hx, hmonth, hx'⟩
    exact ⟨x, (hm x hmonth).mp hx, hmonth, hx'⟩

end MonthFile

/-! ## Names in a directory -/

theorem Tree.mem_names {t : Tree} {q : Place} (h : t.node? q = some .directory) {name : String} :
    name ∈ t.names q ↔ Path.isPlain name = true ∧ (t.node? (name :: q)).isSome = true := by
  obtain ⟨es, hes⟩ : ∃ es, t.branch? q = some (.directory es) := by
    rw [node?] at h
    cases hb : t.branch? q with
    | none => rw [hb] at h; exact nomatch h
    | some b =>
      cases b with
      | directory es => exact ⟨es, rfl⟩
      | file c => rw [hb] at h; exact nomatch h
  simp only [names, hes, List.mem_filter, and_comm (b := Path.isPlain name = true)]
  refine and_congr_right fun hplain => ?_
  rw [node?, branch?_cons t hes hplain, Option.isSome_map, List.lookup_isSome_iff, List.mem_map]
  simp only [beq_iff_eq, eq_comm (a := name)]

namespace FlagFiles

variable {s : FlagFiles} {t u : Tree} {month m : Month} {name : String}

theorem list_eq (hs : s.IsSetUp t) : t.list (Path.ofText s.dir) = .ok (t.names s.place) := by
  obtain ⟨hl, hd⟩ := Tree.isDirectory_iff.mp hs
  simp only [Tree.list, hl, hd, place]

theorem isSetUp_of_list {names : List String} (h : t.list (Path.ofText s.dir) = .ok names) :
    s.IsSetUp t ∧ t.names s.place = names := by
  have hs : s.IsSetUp t := by
    rw [Tree.list] at h
    cases hl : t.locate (Path.ofText s.dir) with
    | error f => simp only [hl] at h; exact nomatch h
    | ok q =>
      obtain rfl := Tree.locate_eq_place t hl
      simp only [hl] at h
      refine Tree.isDirectory_iff.mpr ⟨hl, ?_⟩
      cases hn : t.node? (Path.ofText s.dir).place with
      | none => simp only [hn] at h; exact nomatch h
      | some n =>
        cases n with
        | directory => rfl
        | file c => simp only [hn] at h; exact nomatch h
  rw [list_eq hs] at h
  exact ⟨hs, Except.ok.inj h⟩

/-! ## Room for files -/

/-- The paths of the store's files are not too long. -/
def Fits (s : FlagFiles) : Prop := ∀ m : Month, m.IsCommon → (s.temporary m).size ≤ Path.maxSize

theorem size_child_le_add (p : Path) (h : Path.isPlain name = true) :
    (p.child name).size ≤ p.size + name.utf8ByteSize + 1 := by
  have hstem : (p.stem ++ [""]).size ≤ p.size + 1 := by
    rw [Path.stem]
    split
    · rename_i hl
      obtain ⟨init, rfl⟩ := List.getLast?_eq_some_iff.mp hl
      rw [List.dropLast_concat]
      exact Nat.le_add_right _ _
    · exact Path.size_blank_le p
  rw [Path.child_eq, Path.size_concat _ h]
  omega

/-- There is room if the path of the directory is short enough. -/
theorem fits_of_size_le (h : (Path.ofText s.dir).size + Path.maxNameSize + 1 ≤ Path.maxSize) :
    s.Fits := by
  intro m hm
  have hname := isName_temporary hm
  have hsize := size_child_le_add (Path.ofText s.dir) hname.plain
  have hshort := hname.short
  rw [temporary, pathOf]
  omega

theorem Fits.path (hf : s.Fits) (hm : m.IsCommon) : (s.path m).size ≤ Path.maxSize := by
  refine Nat.le_trans (Path.size_concat_le _ (isName_fileName hm).plain
    (isName_temporary hm).plain ?_)
    (hf m hm)
  rw [String.utf8ByteSize_append]
  exact Nat.le_add_right _ _

theorem locate_path (hs : s.IsSetUp t) (hf : s.Fits) (hm : m.IsCommon) :
    t.locate (s.path m) = .ok (fileName m :: s.place) := by
  exact (locate_pathOf hs (isName_fileName hm)).trans (if_neg (Nat.not_lt.mpr (hf.path hm)))

theorem locate_temporary (hs : s.IsSetUp t) (hf : s.Fits) (hm : m.IsCommon) :
    t.locate (s.temporary m) = .ok ((fileName m ++ ".tmp") :: s.place) := by
  exact (locate_pathOf hs (isName_temporary hm)).trans (if_neg (Nat.not_lt.mpr (hf m hm)))

/-- Where nothing stands in the way, the file of a month is replaced whole, and nothing else stays
of it. -/
theorem write_ok (hs : s.IsSetUp t) (hf : s.Fits) (hm : m.IsCommon) (file : MonthFile)
    (hfile : t.node? (fileName m :: s.place) ≠ some .directory)
    (htemporary : t.node? ((fileName m ++ ".tmp") :: s.place) ≠ some .directory) :
    ∃ u, s.write m file t = (.ok (), u) ∧ t.Grows u ∧ ∀ q, u.node? q =
      if q = fileName m :: s.place then some (.file (.ofText file.toJson.pretty))
      else if q = (fileName m ++ ".tmp") :: s.place then none else t.node? q :=
  write_of_locate (locate_path hs hf hm) (locate_temporary hs hf hm) file hfile htemporary

/-! ## The files of a set -/

/-- The files of the directory stand for a set of marks. -/
structure Holds (s : FlagFiles) (t : Tree) (marks : Finset Mark) : Prop where
  setUp : s.IsSetUp t
  fits : s.Fits
  common : ∀ x ∈ marks, x.IsCommon
  named : ∀ name, Path.isPlain name = true → (t.node? (name :: s.place)).isSome = true →
    ∃ x ∈ marks, fileName x.month = name
  file : ∀ x ∈ marks, ∃ f : MonthFile, (∀ m ∈ f.month, m.IsCommon) ∧ f.Records marks x.month ∧
    t.node? (fileName x.month :: s.place) = some (.file (.ofText f.toJson.pretty))

variable {marks : Finset Mark} {e : Mark}

/-- An empty directory stands for no marks. -/
theorem holds_of_empty (h : t.list (Path.ofText s.dir) = .ok []) (hf : s.Fits) : s.Holds t ∅ := by
  obtain ⟨hs, hnames⟩ := isSetUp_of_list h
  refine ⟨hs, hf, by simp, fun name hplain hsome => ?_, by simp⟩
  have hmem := (Tree.mem_names (Tree.isDirectory_iff.mp hs).2).mpr ⟨hplain, hsome⟩
  rw [show t.names (Path.ofText s.dir).place = [] from hnames] at hmem
  exact nomatch hmem

theorem Holds.mem_names (h : s.Holds t marks) (hx : e ∈ marks) :
    fileName e.month ∈ t.names s.place := by
  obtain ⟨f, -, -, hnode⟩ := h.file e hx
  refine (Tree.mem_names (Tree.isDirectory_iff.mp h.setUp).2).mpr
    ⟨(isName_fileName (h.common e hx).1).plain, ?_⟩
  rw [show t.node? (fileName e.month :: (Path.ofText s.dir).place) = _ from hnode]
  rfl

/-- A month without marks has no file. -/
theorem Holds.no_file (h : s.Holds t marks) (hm : m.IsCommon) (hno : ∀ x ∈ marks, x.month ≠ m) :
    t.node? (fileName m :: s.place) = none := by
  rw [← Option.not_isSome_iff_eq_none]
  intro hsome
  obtain ⟨x, hx, hname⟩ := h.named _ (isName_fileName hm).plain hsome
  exact hno x hx (fileName_injective hname)

/-- No temporary file is left behind. -/
theorem Holds.no_temporary (h : s.Holds t marks) (hm : m.IsCommon) :
    t.node? ((fileName m ++ ".tmp") :: s.place) = none := by
  rw [← Option.not_isSome_iff_eq_none]
  intro hsome
  obtain ⟨x, hx, hname⟩ := h.named _ (isName_temporary hm).plain hsome
  exact fileName_ne_temporary _ _ hname

theorem Holds.read (h : s.Holds t marks) (hm : m.IsCommon) :
    ∃ f, s.read m t = .ok f ∧ f.Records marks m := by
  have hl := locate_path h.setUp h.fits hm
  by_cases hx : ∃ x ∈ marks, x.month = m
  · obtain ⟨x, hx, rfl⟩ := hx
    obtain ⟨f, hmonth, hrecords, hnode⟩ := h.file x hx
    refine ⟨f, ?_, hrecords⟩
    simp only [FlagFiles.read, Tree.readText, hl, hnode, Content.text?_ofText,
      MonthFile.parse_pretty fun m hm => (hmonth m hm).isPlain]
  · have hno : ∀ x ∈ marks, x.month ≠ m := fun x hmem hmonth => hx ⟨x, hmem, hmonth⟩
    refine ⟨.empty, ?_, MonthFile.records_empty hno⟩
    simp only [FlagFiles.read, Tree.readText, hl, h.no_file hm hno]

theorem Holds.load (h : s.Holds t marks) (hm : m.IsCommon) :
    ∃ es, s.load m t = .ok es ∧ Lists marks m es := by
  obtain ⟨f, hf, hrecords⟩ := h.read hm
  refine ⟨f.marks m, ?_, hrecords.lists h.common⟩
  rw [FlagFiles.load, hf]
  rfl

/-! ## Recording a mark -/

/-- The files after the file of a mark was written with its key. -/
theorem Holds.written (h : s.Holds t marks) (he : e.IsCommon) {file : MonthFile}
    (hrecords : file.Records marks e.month) (hg : t.Grows u) (hu : ∀ q, u.node? q =
      if q = fileName e.month :: s.place then some (.file (.ofText (file.insert e).toJson.pretty))
      else if q = (fileName e.month ++ ".tmp") :: s.place then none else t.node? q) :
    s.Holds u (insert e marks) := by
  refine ⟨isSetUp_mono hg h.setUp, h.fits, fun x hx => ?_, fun name hplain hsome => ?_,
    fun x hx => ?_⟩
  · rcases Finset.mem_insert.mp hx with rfl | hx
    · exact he
    · exact h.common x hx
  · rw [hu] at hsome
    split at hsome
    · rename_i hname
      exact ⟨e, Finset.mem_insert_self .., (List.cons_eq_cons.mp hname).1.symm⟩
    · split at hsome
      · exact nomatch hsome
      · obtain ⟨x, hx, hname⟩ := h.named name hplain hsome
        exact ⟨x, Finset.mem_insert_of_mem hx, hname⟩
  · by_cases hm : x.month = e.month
    · rw [hm]
      refine ⟨file.insert e, fun m hm => ?_, hrecords.insert, (hu _).trans (if_pos rfl)⟩
      rw [← Option.some.inj hm]
      exact he.1
    · have hx : x ∈ marks := (Finset.mem_insert.mp hx).resolve_left fun hxe => hm (hxe ▸ rfl)
      have hxm := (h.common x hx).1
      obtain ⟨f, hmonth, hf, hnode⟩ := h.file x hx
      refine ⟨f, hmonth, hf.congr fun y hy => ?_, ?_⟩
      · rw [Finset.mem_insert, or_iff_right]
        rintro rfl
        exact hm hy.symm
      · rw [hu, if_neg, if_neg, hnode]
        · exact fun hq => fileName_ne_temporary _ _ (List.cons_eq_cons.mp hq).1
        · exact fun hq => hm (fileName_injective (List.cons_eq_cons.mp hq).1)

theorem Holds.upsert (h : s.Holds t marks) (he : e.IsCommon) :
    ∃ u, s.upsert e t = (.ok (), u) ∧ s.Holds u (insert e marks) := by
  obtain ⟨file, hread, hrecords⟩ := h.read he.1
  have hamend : s.readToAmend e.month t = .ok file := by simp only [readToAmend, hread]
  by_cases hk : (file.keysOf e.employee).contains e.marker.key = true
  · have hmem := hrecords.mem_of_contains hk
    rw [Finset.insert_eq_self.mpr hmem]
    exact ⟨t, by simp only [FlagFiles.upsert, hamend, if_pos hk], h⟩
  · have hfile : t.node? (fileName e.month :: s.place) ≠ some .directory := by
      by_cases hx : ∃ x ∈ marks, x.month = e.month
      · obtain ⟨x, hx, hm⟩ := hx
        obtain ⟨f, -, -, hnode⟩ := h.file x hx
        rw [← hm, hnode]
        simp
      · rw [h.no_file he.1 fun x hmem hmonth => hx ⟨x, hmem, hmonth⟩]
        simp
    have htemporary : t.node? ((fileName e.month ++ ".tmp") :: s.place) ≠ some .directory := by
      rw [h.no_temporary he.1]
      simp
    obtain ⟨u, hw, hg, hu⟩ := write_ok h.setUp h.fits he.1 (file.insert e) hfile htemporary
    exact ⟨u, by simp only [FlagFiles.upsert, hamend, if_neg hk, hw], h.written he hrecords hg hu⟩

/-! ## Purging -/

/-- The marks that are told by a file of one of some names, of a month before `month`. -/
def Goes (month : Month) (names : List String) (x : Mark) : Prop :=
  x.month < month ∧ fileName x.month ∈ names

instance (month : Month) (names : List String) (x : Mark) : Decidable (Goes month names x) :=
  instDecidableAnd

/-- The files after the file of a month was removed. -/
theorem Holds.removed (h : s.Holds t marks) (hg : t.Grows u)
    (hu : ∀ q, u.node? q = if q = fileName m :: s.place then none else t.node? q) :
    s.Holds u {x ∈ marks | x.month ≠ m} := by
  have hcommon : ∀ x ∈ ({x ∈ marks | x.month ≠ m} : Finset Mark), x.IsCommon := fun x hx =>
    h.common x (Finset.mem_filter.mp hx).1
  refine ⟨isSetUp_mono hg h.setUp, h.fits, hcommon, fun name hplain hsome => ?_, fun x hx => ?_⟩
  · rw [hu] at hsome
    split at hsome
    · exact nomatch hsome
    · rename_i hname
      obtain ⟨x, hx, rfl⟩ := h.named name hplain hsome
      exact ⟨x, Finset.mem_filter.mpr ⟨hx, fun hxm => hname (by rw [hxm])⟩, rfl⟩
  · obtain ⟨hx, hxm⟩ := Finset.mem_filter.mp hx
    obtain ⟨f, hmonth, hf, hnode⟩ := h.file x hx
    refine ⟨f, hmonth, hf.congr fun y hy => ?_, ?_⟩
    · rw [Finset.mem_filter, and_iff_left (hy ▸ hxm)]
    · rw [hu, if_neg, hnode]
      exact fun hq => hxm (fileName_injective (List.cons_eq_cons.mp hq).1)

/-- The name of the file of an earlier month: it goes, and its marks are counted. -/
theorem Holds.purgeName_of_mem (h : s.Holds t marks) (hx : e ∈ marks) (hlt : e.month < month)
    (n : Nat) : ∃ u, s.purgeName month (n, t) (fileName e.month) =
        (n + {x ∈ marks | x.month = e.month}.card, u) ∧
      s.Holds u {x ∈ marks | x.month ≠ e.month} := by
  have hm := (h.common e hx).1
  obtain ⟨f, -, -, hnode⟩ := h.file e hx
  obtain ⟨es, hl, hlists⟩ := h.load hm
  have hheld : s.held e.month t = {x ∈ marks | x.month = e.month}.card := by
    have hpos : 0 < {x ∈ marks | x.month = e.month}.card :=
      Finset.card_pos.mpr ⟨e, Finset.mem_filter.mpr ⟨hx, rfl⟩⟩
    simp only [held, hl, hlists.length]
    omega
  have hlocate : t.locate (s.pathOf (fileName e.month)) = .ok (fileName e.month :: s.place) :=
    locate_path h.setUp h.fits hm
  have hnodes := Tree.node?_erase t hnode
  have hg : t.Grows (t.erase (fileName e.month :: s.place)) := Tree.grows_of_nodes fun q => by
    rw [hnodes]
    split
    · rename_i hq
      exact .inr (by rw [hq, hnode]; simp)
    · exact .inl rfl
  have hpurge : s.purgeName month (n, t) (fileName e.month) =
      (n + s.held e.month t, t.erase (fileName e.month :: s.place)) :=
    purgeName_of_file (monthOfName?_fileName hm.isPlain) hlt hlocate hnode
  exact ⟨_, by rw [hpurge, hheld], h.removed hg hnodes⟩

/-- Any other name is passed over: what a removed file would have been of is a month of the set. -/
theorem Holds.purgeName_of_not_goes (h : s.Holds t marks)
    (hnone : ∀ x ∈ marks, ¬Goes month [name] x) (n : Nat) :
    s.purgeName month (n, t) name = (n, t) := by
  rcases s.purgeName_cases month (n, t) name with hstays | ⟨m, c, u, hname, hlt, hc, -, -⟩
  · exact hstays
  · obtain ⟨text, htext, -⟩ := monthOfName?_eq_some.mp hname
    obtain ⟨x, hmem, hxname⟩ := h.named name (isPlain_of_starts htext) (by rw [hc]; rfl)
    rw [← hxname, monthOfName?_fileName (h.common x hmem).1.isPlain, Option.some.injEq] at hname
    exact absurd ⟨hname ▸ hlt, by rw [hxname]; simp⟩ (hnone x hmem)

/-- One name: if it is that of a month before `month`, its file goes and its marks are counted. -/
theorem Holds.purgeName (h : s.Holds t marks) (month : Month) (n : Nat) (name : String) :
    ∃ u, s.purgeName month (n, t) name = (n + {x ∈ marks | Goes month [name] x}.card, u) ∧
      s.Holds u {x ∈ marks | ¬Goes month [name] x} := by
  by_cases hx : ∃ x ∈ marks, Goes month [name] x
  · obtain ⟨x, hx, hlt, hname⟩ := hx
    obtain rfl := List.mem_singleton.mp hname
    have hgoes : ∀ y ∈ marks, Goes month [fileName x.month] y ↔ y.month = x.month := by
      intro y hy
      constructor
      · rintro ⟨-, hname⟩
        exact fileName_injective (List.mem_singleton.mp hname)
      · intro hym
        exact ⟨hym ▸ hlt, by rw [hym]; simp⟩
    rw [Finset.filter_congr hgoes, Finset.filter_congr fun y hy => not_congr (hgoes y hy)]
    exact h.purgeName_of_mem hx hlt n
  · have hnone : ∀ x ∈ marks, ¬Goes month [name] x := fun x hmem hgoes => hx ⟨x, hmem, hgoes⟩
    rw [Finset.filter_false_of_mem hnone, Finset.filter_true_of_mem hnone]
    exact ⟨t, h.purgeName_of_not_goes hnone n, h⟩

theorem Holds.purgeNames (h : s.Holds t marks) (month : Month) (n : Nat) (names : List String) :
    ∃ u, names.foldl (s.purgeName month) (n, t) =
        (n + {x ∈ marks | Goes month names x}.card, u) ∧
      s.Holds u {x ∈ marks | ¬Goes month names x} := by
  induction names generalizing n t marks with
  | nil =>
    have hnone : ∀ x ∈ marks, ¬Goes month [] x := fun x _ hgoes => nomatch hgoes.2
    rw [Finset.filter_false_of_mem hnone, Finset.filter_true_of_mem hnone]
    exact ⟨t, rfl, h⟩
  | cons name names ih =>
    obtain ⟨t₁, ht₁, h₁⟩ := h.purgeName month n name
    obtain ⟨u, hu, h₂⟩ := ih h₁ (n + {x ∈ marks | Goes month [name] x}.card)
    have hgoes : ∀ x, Goes month (name :: names) x ↔
        Goes month [name] x ∨ ¬Goes month [name] x ∧ Goes month names x := by
      intro x
      simp only [Goes, List.mem_cons, List.not_mem_nil, or_false]
      tauto
    have hcount : {x ∈ marks | Goes month [name] x}.card +
        {x ∈ marks | ¬Goes month [name] x ∧ Goes month names x}.card =
          {x ∈ marks | Goes month (name :: names) x}.card := by
      rw [Finset.filter_congr fun x _ => hgoes x, Finset.filter_or, Finset.card_union_of_disjoint]
      exact Finset.disjoint_filter.mpr fun x _ hx hx' => hx'.1 hx
    have hstay : ({x ∈ marks | ¬Goes month [name] x ∧ ¬Goes month names x} : Finset Mark) =
        {x ∈ marks | ¬Goes month (name :: names) x} :=
      Finset.filter_congr fun x _ => by rw [hgoes]; tauto
    rw [Finset.filter_filter] at h₂
    refine ⟨u, ?_, hstay ▸ h₂⟩
    rw [List.foldl_cons, ht₁, hu, Finset.filter_filter, Nat.add_assoc, hcount]

theorem Holds.purge (h : s.Holds t marks) (month : Month) :
    ∃ u, s.purge month t = (.ok {x ∈ marks | x.month < month}.card, u) ∧
      s.Holds u {x ∈ marks | month ≤ x.month} := by
  obtain ⟨u, hu, h'⟩ := h.purgeNames month 0 (t.names s.place)
  have hgoes : ∀ x ∈ marks, Goes month (t.names s.place) x ↔ x.month < month := fun x hx =>
    and_iff_left (h.mem_names hx)
  rw [Finset.filter_congr hgoes, Nat.zero_add] at hu
  rw [Finset.filter_congr fun x hx => (not_congr (hgoes x hx)).trans Int.not_lt] at h'
  exact ⟨u, by simp only [FlagFiles.purge, list_eq h.setUp, hu], h'⟩

/-- The store keeps a set of marks. -/
theorem keeps_flagFiles (s : FlagFiles) : (Backend.flagFiles s).Keeps s.Holds where
  load {t _ _} h hm := by
    obtain ⟨es, hl, hlists⟩ := h.load hm
    exact ⟨es, t, congrArg (·, t) hl, hlists, h⟩
  upsert h he := h.upsert he
  purge {_ _ month} h _ := h.purge month

end FlagFiles

end OvertimeNotice
