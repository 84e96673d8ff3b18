import Mathlib.Data.List.Basic
import OvertimeNotice.Proofs.Calendar.TextOrder
import OvertimeNotice.Proofs.Files.Beside
import OvertimeNotice.Proofs.Files.Directories
import OvertimeNotice.Proofs.State.MonthFile

/-!
# Flag files that lose nothing

Once its directory is there, what a store reads of a month is a matter of one file in it, and a call
changes files in it and nothing else.

* `FlagFiles.load_congr`: a month depends on its file.
* `FlagFiles.load_upsert_error`, `FlagFiles.load_upsert_ok`, `FlagFiles.load_purge`: a month after a
  call.
-/

namespace OvertimeNotice

namespace FlagFiles

variable {s : FlagFiles} {t u : Tree} {month m : Month} {name : String}

/-! ## Names of files -/

/-- A name that any directory can have. -/
structure IsName (name : String) : Prop where
  plain : Path.isPlain name = true
  noNul : name.toList.contains '\x00' = false
  short : name.utf8ByteSize ≤ Path.maxNameSize

theorem size_ofList_le (l : List Char) : (String.ofList l).utf8ByteSize ≤ 4 * l.length := by
  induction l with
  | nil => simp
  | cons c l ih =>
    have hc : String.ofList (c :: l) = String.singleton c ++ String.ofList l := by
      rw [String.ext_iff]
      simp
    rw [hc, String.utf8ByteSize_append, String.utf8ByteSize_singleton, List.length_cons]
    have := c.utf8Size_le_four
    omega

theorem isPlain_of_starts {rest : List Char} (h : name.toList = nameStart ++ rest) :
    Path.isPlain name = true :=
  Path.isPlain_of_head? (c := 'n') (by rw [h]; rfl) (by decide) (by decide)

theorem toList_fileName (m : Month) :
    (fileName m).toList = nameStart ++ (m.textChars ++ nameEnd) := by
  rw [fileName, String.toList_ofList, List.append_assoc]

theorem length_textChars (hm : m.IsCommon) : m.textChars.length = 7 := by
  obtain ⟨h₀, h₉⟩ := hm
  have hn := m.number_le
  rw [Month.textChars_of_nonneg h₀, List.length_append, List.length_cons,
    Numeral.length_padded (by omega), Numeral.length_padded (by omega)]

theorem not_mem_textChars (hm : m.IsCommon) : '\x00' ∉ m.textChars := by
  rw [Month.textChars_of_nonneg hm.1, List.mem_append, List.mem_cons]
  have hdigit : ∀ w n, '\x00' ∉ Numeral.padded w n := fun w n h =>
    absurd (Numeral.isDigit_of_mem_padded h) (by decide)
  rintro (h | h | h)
  · exact hdigit _ _ h
  · exact absurd h (by decide)
  · exact hdigit _ _ h

/-- The name of a month's file, and that of the temporary file beside it. -/
theorem isName_fileName_append (hm : m.IsCommon) (ending : List Char) (h₀ : '\x00' ∉ ending)
    (h₄ : ending.length ≤ 4) : IsName (fileName m ++ String.ofList ending) := by
  have hl : (fileName m ++ String.ofList ending).toList =
      nameStart ++ (m.textChars ++ nameEnd ++ ending) := by
    rw [String.toList_append, toList_fileName, String.toList_ofList]
    simp
  refine ⟨isPlain_of_starts hl, ?_, ?_⟩
  · rw [← Bool.not_eq_true, List.contains_iff_mem, hl]
    simp only [List.mem_append, not_or]
    exact ⟨by decide, ⟨not_mem_textChars hm, by decide⟩, h₀⟩
  · have hsize := size_ofList_le (fileName m ++ String.ofList ending).toList
    rw [String.ofList_toList, hl] at hsize
    simp only [List.length_append, length_textChars hm, show nameStart.length = 9 from rfl,
      show nameEnd.length = 5 from rfl] at hsize
    have hmax : Path.maxNameSize = 255 := rfl
    omega

theorem isName_fileName (hm : m.IsCommon) : IsName (fileName m) := by
  have h := isName_fileName_append hm [] (by simp) (by simp)
  rwa [show fileName m ++ String.ofList [] = fileName m by simp] at h

theorem isName_temporary (hm : m.IsCommon) : IsName (fileName m ++ ".tmp") :=
  isName_fileName_append hm ['.', 't', 'm', 'p'] (by decide) (by decide)

theorem monthOfName?_eq_some :
    monthOfName? name = some m ↔
      ∃ text, name.toList = nameStart ++ (text ++ nameEnd) ∧
        Month.parse (String.ofList text) = .ok m := by
  have htoOption : ∀ x : Except MonthFault Month, x.toOption = some m ↔ x = .ok m := by
    intro x
    cases x <;> simp [Except.toOption]
  simp only [monthOfName?, Option.bind_eq_bind, Option.bind_eq_some_iff,
    List.isPrefixOf?_eq_some_iff_append_eq, List.isSuffixOf?_eq_some_iff_append_eq, htoOption]
  constructor
  · rintro ⟨rest, hrest, text, htext, hm⟩
    exact ⟨text, by rw [← hrest, htext], hm⟩
  · rintro ⟨text, htext, hm⟩
    exact ⟨_, htext.symm, text, rfl, hm⟩

theorem monthOfName?_fileName (hm : m.IsPlain) : monthOfName? (fileName m) = some m :=
  monthOfName?_eq_some.mpr ⟨m.textChars, toList_fileName m, hm.parse_text⟩

/-! ## Where the files are -/

/-- Where the directory of the store is. -/
def place (s : FlagFiles) : Place := (Path.ofText s.dir).place

/-- The directory of the store is there. -/
def IsSetUp (s : FlagFiles) (t : Tree) : Prop := t.isDirectory (Path.ofText s.dir) = true

theorem isPlain_fileName (m : Month) : Path.isPlain (fileName m) = true :=
  isPlain_of_starts (toList_fileName m)

theorem isPlain_temporary (m : Month) : Path.isPlain (fileName m ++ ".tmp") = true := by
  have hl : (fileName m ++ ".tmp").toList =
      nameStart ++ (m.textChars ++ nameEnd ++ ".tmp".toList) := by
    rw [String.toList_append, toList_fileName]
    simp
  exact isPlain_of_starts hl

theorem place_path (s : FlagFiles) (m : Month) : (s.path m).place = fileName m :: s.place :=
  Path.place_child _ (isPlain_fileName m)

theorem place_temporary (s : FlagFiles) (m : Month) :
    (s.temporary m).place = (fileName m ++ ".tmp") :: s.place :=
  Path.place_child _ (isPlain_temporary m)

theorem locate_pathOf (hs : s.IsSetUp t) (h : IsName name) : t.locate (s.pathOf name) =
    if Path.maxSize < (s.pathOf name).size then .error .tooLong else .ok (name :: s.place) := by
  obtain ⟨hl, hd⟩ := Tree.isDirectory_iff.mp hs
  split
  · rename_i hsize
    have hne : s.pathOf name ≠ [] := by simp [pathOf, Path.child]
    have hnul : (s.pathOf name).hasNul = false :=
      Path.hasNul_child (Tree.hasNul_of_locate t hl) h.noNul
    rw [Tree.locate_eq, if_neg hne, hnul, if_neg Bool.false_ne_true, if_pos hsize]
  · rename_i hsize
    exact Tree.locate_child t hl hd h.plain h.noNul h.short (Nat.not_lt.mp hsize)

theorem isSetUp_mono (h : t.Grows u) (hs : s.IsSetUp t) : s.IsSetUp u := Tree.isDirectory_mono h hs

/-- What a month reads as is a matter of its file. -/
theorem load_congr (ht : s.IsSetUp t) (hu : s.IsSetUp u) (hm : m.IsCommon)
    (h : u.node? (fileName m :: s.place) = t.node? (fileName m :: s.place)) :
    s.load m u = s.load m t := by
  have hl : u.locate (s.path m) = t.locate (s.path m) :=
    (locate_pathOf hu (isName_fileName hm)).trans (locate_pathOf ht (isName_fileName hm)).symm
  have hplace := s.place_path m
  have hread : u.readText (s.path m) = t.readText (s.path m) := by
    rw [Tree.readText, Tree.readText, hl]
    cases hq : t.locate (s.path m) with
    | error f => rfl
    | ok q =>
      obtain rfl : q = fileName m :: s.place := (Tree.locate_eq_place t hq).trans hplace
      simp only [h]
  rw [load, load, read, read, hread]

/-- The same by the way to any file of the store. -/
theorem load_of_locate {q : Place} (hl : t.locate (s.pathOf name) = .ok q) (hg : t.Grows u)
    (hn : u.node? (fileName m :: s.place) = t.node? (fileName m :: s.place)) :
    s.load m u = s.load m t := by
  have htext : u.readText (s.path m) = t.readText (s.path m) := by
    refine Tree.readText_congr hl hg (fun r hr => ?_) (by rwa [place_path])
    rwa [path, pathOf, Path.child_eq, Path.mem_passes_concat, ← Path.child_eq] at hr
  rw [load, load, read, read, htext]

/-- There is nothing to read where a month has no file. -/
theorem readText_of_no_file (h : ∀ c, t.node? (fileName m :: s.place) ≠ some (.file c)) :
    ∃ f, t.readText (s.path m) = .error f := by
  have hplace := s.place_path m
  rw [Tree.readText]
  cases hq : t.locate (s.path m) with
  | error f => exact ⟨f, rfl⟩
  | ok q =>
    obtain rfl : q = fileName m :: s.place := (Tree.locate_eq_place t hq).trans hplace
    cases hn : t.node? (fileName m :: s.place) with
    | none => exact ⟨.missing, by simp only [hn]⟩
    | some n =>
      cases n with
      | directory => exact ⟨.isDirectory, by simp only [hn]⟩
      | file c => exact absurd hn (h c)

/-- A month without a file has no marks. -/
theorem readMarks_load_of_no_file
    (h : ∀ c, t.node? (fileName m :: s.place) ≠ some (.file c)) : readMarks (s.load m t) = [] := by
  obtain ⟨f, hf⟩ := readText_of_no_file h
  rw [load, read, hf]
  cases f <;> rfl

/-- A month without a file counts for one. -/
theorem held_of_no_file (h : ∀ c, t.node? (fileName m :: s.place) ≠ some (.file c)) :
    s.held m t = 1 := by
  obtain ⟨f, hf⟩ := readText_of_no_file h
  rw [held, load, read, hf]
  cases f <;> rfl

/-! ## Writing the file of a month -/

/-- A place of a file that writing the file of a month may change. -/
def Written (s : FlagFiles) (m : Month) (q : Place) : Prop :=
  q = fileName m :: s.place ∨ q = (fileName m ++ ".tmp") :: s.place

theorem temporary_ne (m : Month) : fileName m ++ ".tmp" ≠ fileName m := by
  intro h
  have hl := congrArg (fun x => x.toList.length) h
  simp at hl

/-- Where there is a way, and no directory at its end, the file of a month is replaced whole, and
nothing else stays of it. -/
theorem write_of_locate (hl : t.locate (s.path m) = .ok (fileName m :: s.place))
    (hl' : t.locate (s.temporary m) = .ok ((fileName m ++ ".tmp") :: s.place)) (file : MonthFile)
    (hfile : t.node? (fileName m :: s.place) ≠ some .directory)
    (htemporary : t.node? ((fileName m ++ ".tmp") :: s.place) ≠ some .directory) :
    ∃ u, s.write m file t = (.ok (), u) ∧ t.Grows u ∧ ∀ q, u.node? q =
      if q = fileName m :: s.place then some (.file (.ofText file.toJson.pretty))
      else if q = (fileName m ++ ".tmp") :: s.place then none else t.node? q := by
  have hplace := s.place_path m
  have hplace' := s.place_temporary m
  have hne : (fileName m ++ ".tmp") :: s.place ≠ fileName m :: s.place := fun h =>
    temporary_ne m (List.cons_eq_cons.mp h).1
  obtain ⟨written, hw⟩ : ∃ v, t.writeText (s.temporary m) file.toJson.pretty = .ok v := by
    simp only [Tree.writeText, hl', if_neg htemporary, Except.ok.injEq, exists_eq']
  obtain ⟨-, -, hnodes⟩ := Tree.node?_writeText hw
  rw [hplace'] at hnodes
  have hgrows := Tree.grows_writeText hw
  have hsource : written.node? ((fileName m ++ ".tmp") :: s.place) =
      some (.file (.ofText file.toJson.pretty)) := by rw [hnodes, if_pos rfl]
  have htarget : written.node? (fileName m :: s.place) ≠ some .directory := by
    rwa [hnodes, if_neg hne.symm]
  obtain ⟨moved, hmv⟩ : ∃ v, written.moveFile (s.temporary m) (s.path m) = .ok v := by
    simp only [Tree.moveFile, Tree.locate_mono hgrows hl', Tree.locate_mono hgrows hl, hsource,
      if_neg htarget, Except.ok.injEq, exists_eq']
  obtain ⟨-, hnodes'⟩ := Tree.node?_moveFile hmv (hplace' ▸ hsource) (by rwa [hplace, hplace'])
  rw [hplace, hplace'] at hnodes'
  have hmoved : ∀ q, moved.node? q =
      if q = fileName m :: s.place then some (.file (.ofText file.toJson.pretty))
      else if q = (fileName m ++ ".tmp") :: s.place then none else t.node? q := by
    intro q
    rw [hnodes', hnodes]
    split
    · rfl
    · split
      · rfl
      · rfl
  refine ⟨moved, by simp only [write, hw, hmv], Tree.grows_of_nodes fun q => ?_, hmoved⟩
  rw [hmoved]
  split
  · rename_i hq
    exact .inr (hq ▸ hfile)
  · split
    · rename_i hq
      exact .inr (hq ▸ htemporary)
    · exact .inl rfl

/-- What writing the file of a month does. -/
structure Writes (s : FlagFiles) (m : Month) (file : MonthFile) (t : Tree)
    (r : Except Failure Unit × Tree) : Prop where
  agree : Tree.Agree (fun q => ¬s.Written m q) t r.2
  grows : t.Grows r.2
  error : ∀ {f : Failure}, r.1 = .error f →
    r.2.node? (fileName m :: s.place) = t.node? (fileName m :: s.place)
  ok : r.1 = .ok () → r.2.readText (s.path m) = .ok file.toJson.pretty

theorem writes_write (hs : s.IsSetUp t) (hm : m.IsCommon) (file : MonthFile) :
    s.Writes m file t (s.write m file t) := by
  have hname := isName_fileName hm
  have hplace := s.place_path m
  have htemporary := s.place_temporary m
  have hne : (fileName m ++ ".tmp") :: s.place ≠ fileName m :: s.place := fun h =>
    temporary_ne m (List.cons_eq_cons.mp h).1
  unfold write
  split
  · exact ⟨.refl _ t, .refl t, fun _ => rfl, nofun⟩
  · rename_i written hw
    obtain ⟨-, hn, hnodes⟩ := Tree.node?_writeText hw
    rw [show (s.temporary m).place = _ from htemporary] at hn hnodes
    have hgrows := Tree.grows_writeText hw
    split
    · refine ⟨fun q hq => ?_, hgrows, fun _ => ?_, nofun⟩
      · exact (hnodes q).trans (if_neg fun h => hq (.inr h))
      · exact (hnodes _).trans (if_neg hne.symm)
    · rename_i moved hmv
      have hfile : written.node? (s.temporary m).place =
          some (.file (.ofText file.toJson.pretty)) := by
        rw [show (s.temporary m).place = _ from htemporary, hnodes, if_pos rfl]
      obtain ⟨hn', hnodes'⟩ := Tree.node?_moveFile hmv hfile (by
        rw [show (s.temporary m).place = _ from htemporary, show (s.path m).place = _ from hplace]
        exact hne)
      rw [show (s.temporary m).place = _ from htemporary, show (s.path m).place = _ from hplace]
        at hnodes'
      rw [show (s.path m).place = _ from hplace, hnodes, if_neg hne.symm] at hn'
      have hgrows' : t.Grows moved := by
        refine Tree.grows_of_nodes fun q => ?_
        rw [hnodes']
        split
        · rename_i hq
          exact .inr (hq ▸ hn')
        · rename_i h₁
          split
          · rename_i h₂
            exact .inr (h₂ ▸ hn)
          · rename_i h₂
            rw [hnodes, if_neg h₂]
            exact .inl rfl
      refine ⟨fun q hq => ?_, hgrows', nofun, fun _ => ?_⟩
      · have h₁ : q ≠ fileName m :: s.place := fun h => hq (.inl h)
        have h₂ : q ≠ (fileName m ++ ".tmp") :: s.place := fun h => hq (.inr h)
        exact (hnodes' q).trans (by rw [if_neg h₁, if_neg h₂, hnodes, if_neg h₂])
      · have hl : moved.locate (s.path m) = .ok (fileName m :: s.place) := by
          rw [path, locate_pathOf (isSetUp_mono hgrows' hs) hname]
          split
          · rename_i hsize
            have hlocate : written.locate (s.path m) = .error .tooLong := by
              rw [path, locate_pathOf (isSetUp_mono hgrows hs) hname, if_pos hsize]
            rw [Tree.moveFile, hlocate] at hmv
            split at hmv <;> simp_all
          · rfl
        simp only [Tree.readText, hl, hnodes', if_true, Content.text?_ofText]

/-! ## Calls -/

variable {e : Mark} {f : Failure} {file : MonthFile}

theorem fileName_injective (h : fileName m = fileName month) : m = month := by
  have hl := congrArg String.toList h
  rw [toList_fileName, toList_fileName] at hl
  exact Month.text_injective (congrArg String.ofList
    (List.append_cancel_right (List.append_cancel_left hl)))

/-- A temporary file does not have the name of a month's file. -/
theorem fileName_ne_temporary (m month : Month) : fileName m ≠ fileName month ++ ".tmp" := by
  intro h
  have hl := congrArg (fun x => x.toList.getLast?) h
  simp only [String.toList_append, toList_fileName, ← List.append_assoc] at hl
  rw [List.getLast?_append_of_ne_nil _ (by decide), List.getLast?_append_of_ne_nil _ (by decide)]
    at hl
  exact absurd hl (by decide)

/-- The file of another month is not changed. -/
theorem not_written (h : m ≠ month) : ¬s.Written month (fileName m :: s.place) := by
  rintro (hq | hq)
  · exact h (fileName_injective (List.cons_eq_cons.mp hq).1)
  · exact fileName_ne_temporary _ _ (List.cons_eq_cons.mp hq).1

theorem readMarks_of_readToAmend (h : s.readToAmend m t = .ok file) :
    readMarks (s.load m t) = file.marks m := by
  rw [load]
  unfold readToAmend at h
  split at h
  · rename_i hr
    obtain rfl := Except.ok.inj h
    rw [hr]
    rfl
  · rw [h]
    rfl

theorem load_of_contains (h : s.readToAmend m t = .ok file) {employee k : String}
    (hk : (file.keysOf employee).contains k = true) : s.load m t = .ok (file.marks m) := by
  rw [load]
  unfold readToAmend at h
  split at h
  · obtain rfl := Except.ok.inj h
    exact absurd (TextSet.contains_iff.mp hk) TextSet.not_mem_empty
  · rw [h]
    rfl

theorem upsert_kept (hs : s.IsSetUp t) (he : e.month.IsCommon) :
    Tree.Agree (fun q => ¬s.Written e.month q) t (s.upsert e t).2 ∧ t.Grows (s.upsert e t).2 := by
  unfold upsert
  split
  · exact ⟨.refl _ t, .refl t⟩
  · split
    · exact ⟨.refl _ t, .refl t⟩
    · have hw := writes_write hs he (MonthFile.insert ‹_› e)
      exact ⟨hw.agree, hw.grows⟩

theorem load_upsert_of_ne (hs : s.IsSetUp t) (he : e.month.IsCommon) (hm : m.IsCommon)
    (h : m ≠ e.month) : s.load m (s.upsert e t).2 = s.load m t := by
  obtain ⟨ha, hg⟩ := upsert_kept hs he
  exact load_congr hs (isSetUp_mono hg hs) hm (ha _ (not_written h))

/-- A call that fails changes no month. -/
theorem load_upsert_error (hs : s.IsSetUp t) (he : e.month.IsCommon) (hm : m.IsCommon)
    (hu : (s.upsert e t).1 = .error f) : s.load m (s.upsert e t).2 = s.load m t := by
  by_cases h : m = e.month
  · subst h
    unfold upsert at hu ⊢
    split
    · rfl
    · rename_i hr
      simp only [hr] at hu
      split
      · rfl
      · rename_i hk
        rw [if_neg hk] at hu
        have hw := writes_write hs he (MonthFile.insert ‹_› e)
        exact load_congr hs (isSetUp_mono hw.grows hs) he (hw.error hu)
  · exact load_upsert_of_ne hs he hm h

/-- A call that succeeds adds its mark to what could be read. -/
theorem load_upsert_ok (hs : s.IsSetUp t) (he : e.month.IsCommon) (hn : e.marker ≠ .level .none)
    (hu : (s.upsert e t).1 = .ok ()) : ∃ es, s.load e.month (s.upsert e t).2 = .ok es ∧
      ∀ x, x ∈ es ↔ x = e ∨ x ∈ readMarks (s.load e.month t) := by
  unfold upsert at hu ⊢
  split
  · rename_i hr
    simp only [hr] at hu
    exact nomatch hu
  · rename_i file hr
    simp only [hr] at hu
    have hmarks := readMarks_of_readToAmend hr
    split
    · rename_i hk
      refine ⟨_, load_of_contains hr hk, fun x => ?_⟩
      rw [hmarks, or_iff_right_of_imp]
      rintro rfl
      exact MonthFile.mem_marks_of_contains hn hk
    · rename_i hk
      rw [if_neg hk] at hu
      have hw := writes_write hs he (file.insert e)
      have hread : s.read e.month (s.write e.month (file.insert e) t).2 = .ok (file.insert e) := by
        have hp : (Json.parse? (file.insert e).toJson.pretty).bind MonthFile.ofJson? =
            some (file.insert e) := MonthFile.parse_pretty fun m hm => by
          obtain rfl : e.month = m := Option.some.inj hm
          exact he.isPlain
        simp only [read, hw.ok hu, hp]
      refine ⟨(file.insert e).marks e.month, ?_, fun x => ?_⟩
      · simp only [load, hread, Except.map]
      · rw [MonthFile.mem_marks_insert hn, hmarks]

/-! ## Purging -/

/-- A place of a file that a purge may remove. -/
def Stale (s : FlagFiles) (month : Month) (q : Place) : Prop :=
  ∃ name m, monthOfName? name = some m ∧ m < month ∧ q = name :: s.place

/-- One name: nothing happens, or it tells a month before `month` and its file goes. -/
theorem purgeName_cases (s : FlagFiles) (month : Month) (acc : Nat × Tree) (name : String) :
    s.purgeName month acc name = acc ∨
      ∃ m c u, monthOfName? name = some m ∧ m < month ∧
        acc.2.node? (name :: s.place) = some (.file c) ∧
        (∀ q, u.node? q = if q = name :: s.place then none else acc.2.node? q) ∧
        s.purgeName month acc name = (acc.1 + s.held m acc.2, u) := by
  unfold purgeName
  cases hname : monthOfName? name with
  | none => exact .inl rfl
  | some m =>
    obtain ⟨text, htext, -⟩ := monthOfName?_eq_some.mp hname
    have hplace : (s.pathOf name).place = name :: s.place :=
      Path.place_child _ (isPlain_of_starts htext)
    by_cases hlt : m < month
    · cases hremove : acc.2.removeFile (s.pathOf name) with
      | error f => exact .inl (by simp only [if_pos hlt])
      | ok u =>
        obtain ⟨⟨c, hc⟩, hnodes⟩ := Tree.node?_removeFile hremove
        rw [hplace] at hc hnodes
        exact .inr ⟨m, c, u, rfl, hlt, hc, hnodes, by simp only [if_pos hlt]⟩
    · exact .inl (by simp only [if_neg hlt])

/-- The file of a month before `month` goes if it can be reached. -/
theorem purgeName_of_file {acc : Nat × Tree} {c : Content} (hname : monthOfName? name = some m)
    (hlt : m < month) (hl : acc.2.locate (s.pathOf name) = .ok (name :: s.place))
    (hn : acc.2.node? (name :: s.place) = some (.file c)) :
    s.purgeName month acc name = (acc.1 + s.held m acc.2, acc.2.erase (name :: s.place)) := by
  simp only [purgeName, hname, if_pos hlt, Tree.removeFile, hl, hn]

theorem purgeName_kept (month : Month) (acc : Nat × Tree) (name : String) :
    Tree.Agree (fun q => ¬s.Stale month q) acc.2 (s.purgeName month acc name).2 ∧
      acc.2.Grows (s.purgeName month acc name).2 := by
  rcases s.purgeName_cases month acc name with h | ⟨m, c, u, hname, hlt, hc, hnodes, h⟩
  · rw [h]
    exact ⟨.refl _ _, .refl _⟩
  · rw [h]
    refine ⟨fun q hq => ?_, Tree.grows_of_nodes fun q => ?_⟩
    · exact (hnodes q).trans (if_neg fun h => hq ⟨name, m, hname, hlt, h⟩)
    · by_cases h : q = name :: s.place
      · exact .inr (by rw [h, hc]; simp)
      · exact .inl ((hnodes q).trans (if_neg h))

theorem purge_kept (s : FlagFiles) (month : Month) (t : Tree) :
    Tree.Agree (fun q => ¬s.Stale month q) t (s.purge month t).2 ∧
      t.Grows (s.purge month t).2 := by
  have hfold : ∀ (names : List String) (acc : Nat × Tree),
      Tree.Agree (fun q => ¬s.Stale month q) acc.2 (names.foldl (s.purgeName month) acc).2 ∧
        acc.2.Grows (names.foldl (s.purgeName month) acc).2 := by
    intro names
    induction names with
    | nil => exact fun acc => ⟨.refl _ _, .refl _⟩
    | cons name names ih =>
      intro acc
      obtain ⟨ha, hg⟩ := purgeName_kept (s := s) month acc name
      obtain ⟨ha', hg'⟩ := ih (s.purgeName month acc name)
      exact ⟨ha.trans ha', hg.trans hg'⟩
  unfold purge
  split
  · exact ⟨.refl _ t, .refl t⟩
  · exact hfold _ (0, t)

/-- A purge spares the months from its own on. -/
theorem load_purge (hs : s.IsSetUp t) (hm : m.IsCommon) (h : month ≤ m) :
    s.load m (s.purge month t).2 = s.load m t := by
  obtain ⟨ha, hg⟩ := purge_kept s month t
  refine load_congr hs (isSetUp_mono hg hs) hm (ha _ ?_)
  rintro ⟨name, m', hname, hlt, hq⟩
  rw [← (List.cons_eq_cons.mp hq).1, monthOfName?_fileName hm.isPlain, Option.some.injEq] at hname
  subst hname
  exact absurd h (Int.not_le.mpr hlt)

end FlagFiles

end OvertimeNotice
