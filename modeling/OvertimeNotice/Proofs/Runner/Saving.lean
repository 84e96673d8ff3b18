import Mathlib.Data.Nat.Digits.Defs
import OvertimeNotice.Proofs.Files.Changes
import OvertimeNotice.Proofs.Json.Compact
import OvertimeNotice.Proofs.Plan.Rows
import OvertimeNotice.Proofs.Runner.Archive
import OvertimeNotice.Proofs.Text.Bytes

/-!
# The figures of a month in their file

Saving writes one file, which holds a row for each employee: that of the last snapshot of theirs.
Whatever the file held before is gone, and no other file is touched.

* `Results.Holds`: the rows of some snapshots; `Results.holds_rows`.
* `Results.parse_pretty`: the text of rows reads back as the rows.
* `Results.CanSave`: nothing is in the way of the file.
* `Results.save_holds`: what saving leaves.
-/

namespace OvertimeNotice

open Json.Fields (required_self required_of_ne optional_self optional_of_ne)

/-! ## Rows -/

theorem ResultRow.legible_toJson (r : ResultRow) : r.toJson.Legible := by
  have hlast : (Json.nullable (fun n => .nat n.toNat) r.last).Legible := by
    cases r.last with
    | none => exact .null
    | some n => exact Json.legible_nat n
  refine .object ?_
  simp only [List.forall_mem_cons]
  exact ⟨.string _, .string _, Json.legible_nat _, hlast, Json.legible_nat _, Json.legible_nat _,
    Json.legible_nat _, nofun⟩

theorem ResultRow.ofJson?_toJson (r : ResultRow) : ofJson? r.toJson = some r := by
  have hfields : r.toJson.fields? ["name", "division", "current", "last", "target",
      "percent_vs_last", "percent_target"] =
      some [("name", .given (.string r.name)), ("division", .given (.string r.division)),
        ("current", .given (.nat r.current.toNat)),
        ("last", .given (.nullable (fun n => .nat n.toNat) r.last)),
        ("target", .given (.nat r.target.toNat)),
        ("percent_vs_last", .given (.nat r.percentVsLast.toNat)),
        ("percent_target", .given (.nat r.percentTarget.toNat))] := rfl
  have hlast : (Json.nullable (fun n => .nat n.toNat) r.last).orNull? Json.word? = some r.last :=
    Json.orNull?_nullable (fun n _ => Json.word?_nat n) fun _ _ => nofun
  rw [ofJson?, hfields, Option.bind_eq_bind, Option.bind_some]
  simp (disch := decide) only [required_self, required_of_ne, optional_self, optional_of_ne,
    Json.text?, Json.word?_nat, hlast]
  rfl

namespace Results

variable {snapshots : List Snapshot} {held : TextMap ResultRow}

/-- The rows are those of the snapshots: the employees in them are those of the snapshots, and of
several snapshots of one employee the last counts. -/
structure Holds (snapshots : List Snapshot) (held : TextMap ResultRow) : Prop where
  keys : ∀ employee, employee ∈ held.keys ↔ employee ∈ snapshots.map (·.employee)
  last : ∀ before s after, snapshots = before ++ s :: after →
    (∀ s' ∈ after, s'.employee ≠ s.employee) → held.find? s.employee = some (.ofSnapshot s)

theorem holds_rows (snapshots : List Snapshot) : Holds snapshots (rows snapshots) where
  keys employee := by
    rw [rows, TextMap.mem_keys_ofList, List.map_map]
    rfl
  last := by
    rintro before s after rfl hlast
    rw [rows, List.map_append, List.map_cons]
    exact TextMap.find?_ofList_of_last (List.forall_mem_map.mpr hlast)

/-- If nobody has two snapshots, every snapshot has a row. -/
theorem Holds.find?_of_nodup (h : Holds snapshots held) (hn : (snapshots.map (·.employee)).Nodup)
    {s : Snapshot} (hs : s ∈ snapshots) : held.find? s.employee = some (.ofSnapshot s) := by
  obtain ⟨before, after, rfl⟩ := List.append_of_mem hs
  rw [List.map_append, List.map_cons, List.nodup_middle, List.nodup_cons] at hn
  refine h.last before s after rfl fun s' hs' he => hn.1 ?_
  exact List.mem_append_right _ (he ▸ List.mem_map_of_mem hs')

theorem Holds.perm_keys (h : Holds snapshots held) (hn : (snapshots.map (·.employee)).Nodup) :
    held.keys.Perm (snapshots.map (·.employee)) :=
  (List.perm_ext_iff_of_nodup (held.ascending.imp String.ne_of_lt) hn).mpr h.keys

/-! ## Text -/

theorem legible_toJson (held : TextMap ResultRow) : (toJson held).Legible := by
  refine .object fun m hm => ?_
  obtain ⟨e, -, rfl⟩ := List.mem_map.mp hm
  exact e.2.legible_toJson

/-- The text of rows is read as an object with the employees as its names, and as the rows. -/
theorem parse_pretty (held : TextMap ResultRow) : ∃ members,
    Json.parse? (toJson held).pretty = some (.object members) ∧ members.map (·.1) = held.keys ∧
      Json.textMap? ResultRow.ofJson? (.object members) = some held := by
  refine ⟨_, Json.parse?_pretty (legible_toJson held), ?_,
    Json.textMap?_map held ResultRow.ofJson?_toJson⟩
  rw [List.map_map]
  rfl

end Results

/-! ## Names of files -/

namespace Numeral

theorem length_padded_le {w n k : Nat} (hk : 0 < k) (h : n < 10 ^ k) :
    (padded w n).length ≤ max w k := by
  have hdigits : (natDigits n).length ≤ k := Nat.toDigits_length 10 n k hk h
  rw [padded, zeroPad, List.length_append, List.length_replicate]
  omega

/-- A number of 32 bits with a sign has eleven characters at most. -/
theorem length_paddedInt_le {i : Int} (hlow : -2 ^ 31 ≤ i) (hhigh : i < 2 ^ 31) :
    (paddedInt 4 i).length ≤ 11 := by
  have hdigits : i.natAbs < 10 ^ 10 := by omega
  unfold paddedInt
  split
  · have hpadded := length_padded_le (w := 4 - 1) (by decide) hdigits
    rw [List.length_cons]
    omega
  · have hpadded := length_padded_le (w := 4) (by decide) hdigits
    omega

theorem nul_not_mem_padded (w n : Nat) : '\x00' ∉ padded w n := fun h =>
  absurd (isDigit_of_mem_padded h) (by decide)

theorem nul_not_mem_paddedInt (w : Nat) (i : Int) : '\x00' ∉ paddedInt w i := by
  unfold paddedInt
  split
  · rw [List.mem_cons, not_or]
    exact ⟨by decide, nul_not_mem_padded _ _⟩
  · exact nul_not_mem_padded _ _

end Numeral

namespace Results

variable {cacheDir : String} {month : Month} {snapshots : List Snapshot} {t u : Tree}
  {held : TextMap ResultRow}

theorem toList_fileName (month : Month) : (fileName month).toList =
    "overtime_result_".toList ++ (Numeral.paddedInt 4 month.year ++
      Numeral.padded 2 month.number ++ ".json".toList) := by
  have hparts : ∀ a b c : String, (a ++ b ++ c).toList = a.toList ++ (b.toList ++ c.toList) := by
    intro a b c
    rw [String.toList_append, String.toList_append, List.append_assoc]
  have hcompact : month.compact.toList =
      Numeral.paddedInt 4 month.year ++ Numeral.padded 2 month.number := String.toList_ofList
  exact hcompact ▸ hparts "overtime_result_" month.compact ".json"

/-- The file of a month has a name that any directory can have. -/
theorem isName_fileName (hlow : -2 ^ 31 ≤ month.year) (hhigh : month.year < 2 ^ 31) :
    FlagFiles.IsName (fileName month) where
  plain := isPlain_fileName month
  noNul := by
    rw [← Bool.not_eq_true, List.contains_iff_mem, toList_fileName]
    simp only [List.mem_append, not_or]
    exact ⟨by decide, ⟨Numeral.nul_not_mem_paddedInt _ _, Numeral.nul_not_mem_padded _ _⟩,
      by decide⟩
  short := by
    have hyear := Numeral.length_paddedInt_le hlow hhigh
    have hnumber : (Numeral.padded 2 month.number).length = 2 :=
      Numeral.length_padded (Nat.lt_of_le_of_lt month.number_le (by decide))
    have hsize := FlagFiles.size_ofList_le (fileName month).toList
    rw [String.ofList_toList, toList_fileName] at hsize
    simp only [List.length_append, hnumber, show "overtime_result_".toList.length = 16 from rfl,
      show ".json".toList.length = 5 from rfl] at hsize
    have hmax : Path.maxNameSize = 255 := rfl
    omega

/-! ## The file -/

/-- Nothing is in the way of the file of a month: its directory is there or can be made, its path is
not too long, and there is no directory in its place. -/
structure CanSave (cacheDir : String) (month : Month) (t : Tree) : Prop where
  made : (t.makeDirectories (Path.ofText cacheDir)).1 = .ok ()
  fits : (path cacheDir month).size ≤ Path.maxSize
  free : (t.makeDirectories (Path.ofText cacheDir)).2.node? (path cacheDir month).place ≠
    some .directory

/-- The file has a place once its directory is there. -/
theorem CanSave.locate (h : CanSave cacheDir month t) (hlow : -2 ^ 31 ≤ month.year)
    (hhigh : month.year < 2 ^ 31) :
    (t.makeDirectories (Path.ofText cacheDir)).2.locate (path cacheDir month) =
      .ok (path cacheDir month).place := by
  have hname := isName_fileName hlow hhigh
  by_cases hempty : Path.ofText cacheDir = []
  · have hpath : path cacheDir month = [fileName month] := by
      rw [path, hempty]
      rfl
    have hfits := h.fits
    rw [place_path, hempty]
    rw [hpath] at hfits ⊢
    exact Tree.locate_name _ hname.plain hname.noNul hname.short hfits
  · have hmade : t.makeDirectories (Path.ofText cacheDir) =
        (.ok (), (t.makeDirectories (Path.ofText cacheDir)).2) := Prod.ext h.made rfl
    obtain ⟨hl, hd⟩ := Tree.isDirectory_iff.mp (Tree.isDirectory_of_makeDirectories hempty hmade)
    rw [place_path]
    exact Tree.locate_child _ hl hd hname.plain hname.noNul hname.short h.fits

/-- The file is written whole, and nothing else changes but that there may be directories where
there was nothing. -/
theorem CanSave.saved (h : CanSave cacheDir month t) (hlow : -2 ^ 31 ≤ month.year)
    (hhigh : month.year < 2 ^ 31) (snapshots : List Snapshot) :
    ∃ u, save cacheDir month snapshots t = (.ok (), u) ∧
      u.readText (path cacheDir month) = .ok (toJson (rows snapshots)).pretty ∧
      ∀ q, u.node? q =
          (if q = (path cacheDir month).place then
            some (.file (.ofText (toJson (rows snapshots)).pretty))
          else t.node? q) ∨
        t.node? q = none ∧ u.node? q = some .directory := by
  let made := (t.makeDirectories (Path.ofText cacheDir)).2
  have hmade : t.makeDirectories (Path.ofText cacheDir) = (.ok (), made) := Prod.ext h.made rfl
  have hlocate : made.locate (path cacheDir month) = _ := h.locate hlow hhigh
  have hfree : made.node? (path cacheDir month).place ≠ some .directory := h.free
  obtain ⟨u, hu⟩ : ∃ u, made.writeText (path cacheDir month) (toJson (rows snapshots)).pretty =
      .ok u := by
    simp only [Tree.writeText, hlocate, if_neg hfree, Except.ok.injEq, exists_eq']
  obtain ⟨-, -, hnodes⟩ := Tree.node?_writeText hu
  have hgrows := Tree.grows_writeText hu
  refine ⟨u, by simp only [save, hmade, hu], ?_, fun q => ?_⟩
  · rw [Tree.readText_of_file (Tree.locate_mono hgrows hlocate) ((hnodes _).trans (if_pos rfl)),
      Content.text?_ofText]
    rfl
  · rw [hnodes]
    split
    · exact .inl rfl
    · -- what is there now was there before, or it is a directory
      cases hq : t.node? q with
      | some n => exact .inl ((Tree.makeDirectories_gains t _).node? hq)
      | none =>
        cases hq' : made.node? q with
        | none => exact .inl rfl
        | some n =>
          cases n with
          | directory => exact .inr ⟨rfl, rfl⟩
          | file c =>
            have hbefore := Tree.makeDirectories_file hq'
            rw [hq] at hbefore
            cases hbefore

/-- **The file of a month holds the figures that were evaluated**, and no others. It is read as an
object that has the employees as its names, in the order of their bytes, and for each the row of
their last snapshot. In a report of a run nobody has two, so that everybody evaluated has a row of
their own. What the file held before is gone. No other file is touched. -/
theorem save_holds (hlow : -2 ^ 31 ≤ month.year) (hhigh : month.year < 2 ^ 31)
    (h : CanSave cacheDir month t) (snapshots : List Snapshot) :
    ∃ u text members held, save cacheDir month snapshots t = (.ok (), u) ∧
      u.readText (path cacheDir month) = .ok text ∧
      Json.parse? text = some (.object members) ∧
      Json.textMap? ResultRow.ofJson? (.object members) = some held ∧
      members.map (·.1) = held.keys ∧
      held.keys.Pairwise (fun a b => Text.bytes a < Text.bytes b) ∧
      Holds snapshots held ∧
      (∀ (σ : Type) (b : Backend σ) (request : RunRequest) (l l' : Ledger σ) (rep : Report),
        request.on b l = (.ok rep, l') → rep.evaluated = snapshots →
          held.keys.Perm (snapshots.map (·.employee)) ∧
            ∀ s ∈ snapshots, held.find? s.employee = some (.ofSnapshot s)) ∧
      ∀ q, u.node? q =
          (if q = (path cacheDir month).place then some (.file (.ofText text)) else t.node? q) ∨
        t.node? q = none ∧ u.node? q = some .directory := by
  obtain ⟨u, hsave, hread, hnodes⟩ := h.saved hlow hhigh snapshots
  obtain ⟨members, hparse, hnames, hheld⟩ := parse_pretty (rows snapshots)
  have hholds := holds_rows snapshots
  refine ⟨u, _, members, rows snapshots, hsave, hread, hparse, hheld, hnames, ?_, hholds, ?_,
    hnodes⟩
  · exact (rows snapshots).ascending.imp Text.bytes_lt_of_lt
  · rintro σ b request l l' rep hrun rfl
    have hn := Planner.nodup_of_report hrun
    exact ⟨hholds.perm_keys hn, fun s hs => hholds.find?_of_nodup hn hs⟩

private def sampleFigures (name : String) (minutes : UInt32) : Snapshot :=
  { employee := "1001", name, department := "300", month := Moment.trial.toMonth, minutes
    previousMinutes := none, ceiling := 600, percent := .zero, severity := .none
    percentVsLast := 0, remaining := 600 }

/-- A cache directory with the files of two months, neither of which holds rows. -/
private def sampleCache : Tree :=
  ⟨[("cache", .directory [("overtime_result_-00510.json", .file (.ofText "\x7b")),
    ("overtime_result_202610.json", .file .nothing)])]⟩

/-- Of two snapshots of one employee the last is saved, over what was there. -/
theorem save_holds_sample :
    let month : Month := { Moment.trial.toMonth with year := -5 }
    let figures := [sampleFigures "Ann" 60, sampleFigures "\"Ann\"" 120]
    (-2 ^ 31 ≤ month.year ∧ month.year < 2 ^ 31 ∧ CanSave "cache" month sampleCache) ∧
      ∃ u text held, save "cache" month figures sampleCache = (.ok (), u) ∧
        u.readText (path "cache" month) = .ok text ∧
        (Json.parse? text).bind (Json.textMap? ResultRow.ofJson?) = some held ∧
        held.find? "1001" = some {
          name := "\"Ann\"", division := "300", current := 120, last := none, target := 600
          percentVsLast := 0, percentTarget := 20 } ∧
        u.node? ["overtime_result_202610.json", "cache"] = some (.file .nothing) := by
  intro month figures
  have hcan : CanSave "cache" month sampleCache :=
    ⟨by decide +kernel, by decide +kernel, by decide +kernel⟩
  refine ⟨⟨by decide, by decide, hcan⟩, ?_⟩
  obtain ⟨u, text, members, held, hsave, hread, hparse, hheld, -, -, hholds, -, hnodes⟩ :=
    save_holds (by decide) (by decide) hcan figures
  refine ⟨u, text, held, hsave, hread, ?_, ?_, ?_⟩
  · rw [hparse]
    exact hheld
  · have hlast := hholds.last [sampleFigures "Ann" 60] (sampleFigures "\"Ann\"" 120) [] rfl nofun
    exact hlast.trans (by decide +kernel)
  · have hother : sampleCache.node? ["overtime_result_202610.json", "cache"] =
        some (.file .nothing) := by decide +kernel
    rcases hnodes ["overtime_result_202610.json", "cache"] with h | ⟨h, -⟩
    · exact h.trans ((if_neg (by decide +kernel)).trans hother)
    · exact nomatch hother.symm.trans h

end Results

end OvertimeNotice
