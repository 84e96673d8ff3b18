import Mathlib.Algebra.BigOperators.Group.Finset.Basic
import Mathlib.Data.List.Induction
import OvertimeNotice.Proofs.State.FlagSet

/-!
# The files that a purge removes

A purge goes by the names that it finds in the directory. Every name that reads as the name of a
month's file counts as one, also where the month would write it otherwise, and the name of a month
before year zero reads as none. What a removal counts for is read from the file with the usual name
of the month. Where that is another file, the count depends on which of the two is listed first.

* `FlagFiles.Tells`: the names that read as that of a month's file.
* `FlagFiles.outdated`, `FlagFiles.counted`: the files that go, and what each counts for.
* `FlagFiles.Cleared`: what a purge has done halfway through the directory.
* `FlagFiles.purge_outdated`: what a purge does to any directory.
* `FlagFiles.purge_by_name`: three directories with other files than those of the store.
-/

namespace OvertimeNotice

namespace FlagFiles

variable {s : FlagFiles} {t u : Tree} {month m m' : Month} {name : String} {q : Place}
  {l rest : List String} {acc : Nat × Tree} {c : Content}

/-! ## Names that tell a month -/

/-- The name is a text of a month between the start and the end of a file's name. -/
def Tells (name : String) (m : Month) : Prop :=
  ∃ text, name.toList = nameStart ++ (text ++ nameEnd) ∧ m.Spelled text

theorem monthOfName?_iff : monthOfName? name = some m ↔ Tells name m := by
  simp only [monthOfName?_eq_some, Month.parse_eq_ok, Tells]

theorem Tells.unique (h : Tells name m) (h' : Tells name m') : m = m' := by
  rw [← monthOfName?_iff] at h h'
  rw [h] at h'
  exact Option.some.inj h'

theorem Tells.isPlain (h : Tells name m) : m.IsPlain := by
  obtain ⟨text, -, hplain, -⟩ := h
  exact hplain

theorem Tells.isName (h : Tells name m) : Path.isPlain name = true := by
  obtain ⟨text, hname, -⟩ := h
  exact isPlain_of_starts hname

theorem tells_fileName (hm : m.IsPlain) : Tells (fileName m) m :=
  monthOfName?_iff.mp (monthOfName?_fileName hm)

/-- The usual name of a month tells that month, or none if its year is negative. -/
theorem tells_fileName_iff (hm : m.year ≤ Numeral.max31) :
    Tells (fileName m) m' ↔ 0 ≤ m.year ∧ m' = m := by
  constructor
  · intro h
    by_cases hyear : 0 ≤ m.year
    · exact ⟨hyear, h.unique (tells_fileName ⟨hyear, hm⟩)⟩
    · obtain ⟨text, hname, hspelled⟩ := h
      rw [toList_fileName] at hname
      obtain rfl := List.append_cancel_right (List.append_cancel_left hname)
      exact absurd hspelled (Month.not_spelled_of_neg (Int.not_le.mp hyear))
  · rintro ⟨hyear, rfl⟩
    exact tells_fileName ⟨hyear, hm⟩

/-! ## Files that go -/

/-- Every file that is listed can be reached by its path. -/
def Reaches (s : FlagFiles) (t : Tree) : Prop :=
  ∀ name ∈ t.names s.place, t.locate (s.pathOf name) = .ok (name :: s.place)

instance : Decidable (s.Reaches t) := List.decidableBAll _ _

/-- The files whose names tell months before `month`. -/
def outdated (s : FlagFiles) (month : Month) (t : Tree) : Finset String :=
  {name ∈ (t.names s.place).toFinset |
    (monthOfName? name).any (· < month) = true ∧ t.node? (name :: s.place) ≠ some .directory}

/-- What the removal of a file counts for: what is read under the usual name of its month, and one
if that is the name of another file, listed before and so gone by then. -/
def counted (s : FlagFiles) (t : Tree) (name : String) : Nat :=
  match monthOfName? name with
  | none => 0
  | some m =>
    if (t.names s.place).idxOf (fileName m) < (t.names s.place).idxOf name then 1
    else s.held m t

theorem mem_outdated (hs : s.IsSetUp t) : name ∈ s.outdated month t ↔
    (∃ m, Tells name m ∧ m < month) ∧ ∃ c, t.node? (name :: s.place) = some (.file c) := by
  have hdir : t.node? s.place = some .directory := (Tree.isDirectory_iff.mp hs).2
  have htold : (monthOfName? name).any (· < month) = true ↔ ∃ m, Tells name m ∧ m < month := by
    simp only [Option.any_eq_true, decide_eq_true_eq, monthOfName?_iff]
  rw [outdated, Finset.mem_filter, List.mem_toFinset, Tree.mem_names hdir, htold]
  constructor
  · rintro ⟨⟨-, hsome⟩, hmonth, hnot⟩
    refine ⟨hmonth, ?_⟩
    cases hn : t.node? (name :: s.place) with
    | none => rw [hn] at hsome; exact nomatch hsome
    | some n =>
      cases n with
      | directory => exact absurd hn hnot
      | file c => exact ⟨c, rfl⟩
  · rintro ⟨⟨m, htells, hlt⟩, c, hn⟩
    exact ⟨⟨htells.isName, by rw [hn]; rfl⟩, ⟨m, htells, hlt⟩, by rw [hn]; simp⟩

/-! ## Halfway through the directory -/

/-- What a purge has done once it has gone through the names `l`. -/
structure Cleared (s : FlagFiles) (month : Month) (t : Tree) (l : List String)
    (acc : Nat × Tree) : Prop where
  gone : ∀ name ∈ l, name ∈ s.outdated month t → acc.2.node? (name :: s.place) = none
  kept : ∀ q, (∀ name ∈ l, name ∈ s.outdated month t → q ≠ name :: s.place) →
    acc.2.node? q = t.node? q
  count : acc.1 = ∑ name ∈ s.outdated month t with name ∈ l, s.counted t name

theorem cleared_nil (s : FlagFiles) (month : Month) (t : Tree) : s.Cleared month t [] (0, t) where
  gone := nofun
  kept _ _ := rfl
  count := by simp

/-- What is still there was there from the start. -/
theorem Cleared.node?_of_some (h : s.Cleared month t l acc) {n : Node}
    (hn : acc.2.node? q = some n) : t.node? q = some n := by
  rw [← hn]
  refine (h.kept q fun name hl hgoes hq => ?_).symm
  rw [hq, h.gone name hl hgoes] at hn
  exact nomatch hn

theorem Cleared.grows (h : s.Cleared month t l acc) (hs : s.IsSetUp t) : t.Grows acc.2 := by
  intro q hq
  rw [h.kept q, hq]
  rintro name - hgoes rfl
  obtain ⟨-, c, hc⟩ := (mem_outdated hs).mp hgoes
  rw [hq] at hc
  exact nomatch hc

/-- A file that was not listed yet is still there. -/
theorem Cleared.node?_of_not_mem (h : s.Cleared month t l acc) (hl : name ∉ l) :
    acc.2.node? (name :: s.place) = t.node? (name :: s.place) := by
  refine h.kept _ fun x hx _ hq => hl ?_
  rwa [(List.cons_eq_cons.mp hq).1]

/-- A name that calls for nothing more. -/
theorem Cleared.pass (h : s.Cleared month t l acc)
    (hname : name ∈ s.outdated month t → name ∈ l) : s.Cleared month t (l ++ [name]) acc := by
  have hmem : ∀ x ∈ s.outdated month t, x ∈ l ++ [name] ↔ x ∈ l := by
    intro x hx
    rw [List.mem_append, List.mem_singleton, or_iff_left_of_imp]
    rintro rfl
    exact hname hx
  refine ⟨fun x hx hgoes => h.gone x ((hmem x hgoes).mp hx) hgoes, fun q hq => h.kept q ?_, ?_⟩
  · exact fun x hx hgoes => hq x ((hmem x hgoes).mpr hx) hgoes
  · rw [h.count, Finset.filter_congr hmem]

/-- The file of a name that is told no month before `month`, or that was listed before, stays as it
is. -/
theorem Cleared.purgeName_of_pass (h : s.Cleared month t l acc) (hs : s.IsSetUp t)
    (hname : name ∈ s.outdated month t → name ∈ l) : s.purgeName month acc name = acc := by
  rcases s.purgeName_cases month acc name with hstays | ⟨m, c, u, htold, hlt, hc, -, -⟩
  · exact hstays
  · have hgoes := (mem_outdated hs).mpr
      ⟨⟨m, monthOfName?_iff.mp htold, hlt⟩, c, h.node?_of_some hc⟩
    rw [h.gone name (hname hgoes) hgoes] at hc
    exact nomatch hc

theorem idxOf_lt_length_iff {l rest : List String} {x : String} :
    (l ++ rest).idxOf x < l.length ↔ x ∈ l := by
  by_cases hx : x ∈ l
  · rw [List.idxOf_append_of_mem hx, List.idxOf_lt_length_iff]
  · rw [List.idxOf_append_of_notMem hx]
    simp [hx]

/-- What a file counts for when its turn comes. -/
theorem Cleared.held_eq (h : s.Cleared month t l acc) (hs : s.IsSetUp t) (hr : s.Reaches t)
    (hnames : t.names s.place = l ++ name :: rest) (hl : name ∉ l) (htells : Tells name m)
    (hlt : m < month) : s.held m acc.2 = s.counted t name := by
  have hidx : (l ++ name :: rest).idxOf name = l.length := by
    rw [List.idxOf_append_of_notMem hl, List.idxOf_cons_self, Nat.add_zero]
  have hcounted : s.counted t name = if fileName m ∈ l then 1 else s.held m t := by
    simp only [counted, monthOfName?_iff.mpr htells, hnames, hidx, idxOf_lt_length_iff]
  rw [hcounted]
  by_cases hfile : fileName m ∈ l
  · rw [if_pos hfile]
    refine held_of_no_file fun c hc => ?_
    have hgoes := (mem_outdated hs).mpr
      ⟨⟨m, tells_fileName htells.isPlain, hlt⟩, c, h.node?_of_some hc⟩
    rw [h.gone _ hfile hgoes] at hc
    exact nomatch hc
  · rw [if_neg hfile]
    have hlocate := hr name (by rw [hnames]; simp)
    rw [held, held, load_of_locate hlocate (h.grows hs) (h.node?_of_not_mem hfile)]

/-- A file whose turn has come is removed and counted. -/
theorem Cleared.remove (h : s.Cleared month t l acc) (hs : s.IsSetUp t) (hr : s.Reaches t)
    (hnames : t.names s.place = l ++ name :: rest) (hl : name ∉ l)
    (hname : name ∈ s.outdated month t) :
    s.Cleared month t (l ++ [name]) (s.purgeName month acc name) := by
  obtain ⟨⟨m, htells, hlt⟩, c, hc⟩ := (mem_outdated hs).mp hname
  have hlocate : acc.2.locate (s.pathOf name) = .ok (name :: s.place) :=
    Tree.locate_mono (h.grows hs) (hr name (by rw [hnames]; simp))
  have hnode : acc.2.node? (name :: s.place) = some (.file c) := by
    rw [h.node?_of_not_mem hl, hc]
  have hpurge : s.purgeName month acc name =
      (acc.1 + s.counted t name, acc.2.erase (name :: s.place)) := by
    rw [purgeName_of_file (monthOfName?_iff.mpr htells) hlt hlocate hnode,
      h.held_eq hs hr hnames hl htells hlt]
  have herase := Tree.node?_erase acc.2 hnode
  rw [hpurge]
  refine ⟨fun x hx hgoes => ?_, fun q hq => ?_, ?_⟩
  · show (acc.2.erase (name :: s.place)).node? (x :: s.place) = none
    rw [herase]
    split
    · rfl
    · rename_i hne
      rcases List.mem_append.mp hx with hx | hx
      · exact h.gone x hx hgoes
      · exact absurd (by rw [List.mem_singleton.mp hx]) hne
  · show (acc.2.erase (name :: s.place)).node? q = t.node? q
    rw [herase, if_neg (hq name (by simp) hname)]
    exact h.kept q fun x hx => hq x (List.mem_append_left _ hx)
  · have hfilter : {x ∈ s.outdated month t | x ∈ l ++ [name]} =
        insert name {x ∈ s.outdated month t | x ∈ l} := by
      ext x
      simp only [Finset.mem_filter, Finset.mem_insert, List.mem_append, List.mem_singleton]
      constructor
      · rintro ⟨hx, hx' | rfl⟩
        · exact .inr ⟨hx, hx'⟩
        · exact .inl rfl
      · rintro (rfl | ⟨hx, hx'⟩)
        · exact ⟨hname, .inr rfl⟩
        · exact ⟨hx, .inl hx'⟩
    rw [hfilter, Finset.sum_insert (by simp [hl]), ← h.count, Nat.add_comm]

theorem cleared_foldl (hs : s.IsSetUp t) (hr : s.Reaches t) (month : Month) {l rest : List String}
    (hnames : t.names s.place = l ++ rest) :
    s.Cleared month t l (l.foldl (s.purgeName month) (0, t)) := by
  -- on the last name, so that the names before it are those that were gone through
  induction l using List.reverseRecOn generalizing rest with
  | nil => exact cleared_nil s month t
  | append_singleton l name ih =>
    have hnames' : t.names s.place = l ++ name :: rest := by
      rw [hnames, List.append_assoc, List.singleton_append]
    have h := ih hnames'
    rw [List.foldl_append, List.foldl_cons, List.foldl_nil]
    by_cases hname : name ∈ s.outdated month t → name ∈ l
    · rw [h.purgeName_of_pass hs hname]
      exact h.pass hname
    · obtain ⟨hgoes, hl⟩ := Classical.not_imp.mp hname
      exact h.remove hs hr hnames' hl hgoes

/-! ## A whole purge -/

/-- **What a purge does to a directory**, whatever is in it, if its files can be reached. The files
whose names tell earlier months go, nothing else changes, and the answer is the sum of what they
count for. Of the files with the usual names, those of the earlier months go if their years are not
negative, and each counts for the marks that are read from it, and for one if there are none. -/
theorem purge_outdated (hs : s.IsSetUp t) (hr : s.Reaches t) (month : Month) :
    ∃ u, s.purge month t = (.ok (∑ name ∈ s.outdated month t, s.counted t name), u) ∧
      (∀ name ∈ s.outdated month t, u.node? (name :: s.place) = none) ∧
      (∀ q, (∀ name ∈ s.outdated month t, q ≠ name :: s.place) → u.node? q = t.node? q) ∧
      (∀ name, name ∈ s.outdated month t ↔
        (∃ m, Tells name m ∧ m < month) ∧ ∃ c, t.node? (name :: s.place) = some (.file c)) ∧
      ∀ m : Month, m.year ≤ Numeral.max31 →
        (fileName m ∈ s.outdated month t ↔ 0 ≤ m.year ∧ m < month ∧
          ∃ c, t.node? (fileName m :: s.place) = some (.file c)) ∧
        (fileName m ∈ s.outdated month t → s.counted t (fileName m) = s.held m t) := by
  have hdir : t.node? s.place = some .directory := (Tree.isDirectory_iff.mp hs).2
  have hlisted : ∀ name ∈ s.outdated month t, name ∈ t.names s.place := fun name hname =>
    List.mem_toFinset.mp (Finset.mem_filter.mp hname).1
  have h := cleared_foldl hs hr month (List.append_nil (t.names s.place)).symm
  have hcount := h.count
  rw [Finset.filter_true_of_mem hlisted] at hcount
  refine ⟨_, ?_, fun name hname => h.gone name (hlisted name hname) hname,
    fun q hq => h.kept q fun name _ => hq name, fun name => mem_outdated hs, fun m hm => ⟨?_, ?_⟩⟩
  · simp only [purge, list_eq hs, hcount]
  · rw [mem_outdated hs, ← and_assoc]
    refine and_congr_left fun _ => ?_
    simp only [tells_fileName_iff hm]
    constructor
    · rintro ⟨m', ⟨hyear, rfl⟩, hlt⟩
      exact ⟨hyear, hlt⟩
    · rintro ⟨hyear, hlt⟩
      exact ⟨m, ⟨hyear, rfl⟩, hlt⟩
  · intro hgoes
    obtain ⟨⟨m', htells, -⟩, -⟩ := (mem_outdated hs).mp hgoes
    obtain ⟨-, rfl⟩ := (tells_fileName_iff hm).mp htells
    simp only [counted, monthOfName?_iff.mpr htells, Nat.lt_irrefl, if_false]

/-! ## Other files than those of the store -/

private def listed : FlagFiles := ⟨"flags"⟩

private def listedTree (files : List (String × Branch)) : Tree := ⟨[("flags", .directory files)]⟩

private def firstKept : Month := (Month.of? 2026 10).getD default

private def monthBefore : Month := (Month.of? 2026 9).getD default

private def beforeZero : Month := (Month.of? (-5) 1).getD default

/-- A file with a mark of each of some employees. -/
private def markedFile (employees : List String) : Branch :=
  .file (.ofText (MonthFile.toJson ⟨none, .ofList (employees.map (·, .ofList ["90"]))⟩).compact)

/-- The name of no month's file, which tells a month all the same. -/
private def respelled : String := "notified_2026-9.json"

private theorem fileName_ne_respelled (m : Month) (hm : m.year ≤ Numeral.max31) :
    fileName m ≠ respelled := by
  intro hname
  have htells : Tells respelled monthBefore := monthOfName?_iff.mp (by decide +kernel)
  rw [← hname] at htells
  obtain ⟨-, rfl⟩ := (tells_fileName_iff hm).mp htells
  exact absurd hname (by decide +kernel)

/-- Three files, one under the usual name of its month, one under another name of the same month,
one of a month before year zero. -/
private def mixed : Tree := listedTree [(respelled, markedFile ["1", "2"]),
  (fileName beforeZero, markedFile ["1"]), (fileName monthBefore, markedFile ["1"])]

theorem purge_outdated_sample : ∃ u, listed.purge firstKept mixed = (.ok 2, u) ∧
    u.node? (fileName monthBefore :: listed.place) = none ∧
    u.node? (fileName beforeZero :: listed.place) =
      mixed.node? (fileName beforeZero :: listed.place) := by
  have hs : mixed.isDirectory (Path.ofText "flags") = true := by decide +kernel
  obtain ⟨u, hu, hgone, hkept, -, -⟩ :=
    purge_outdated (s := listed) (t := mixed) hs (by decide +kernel) firstKept
  have hgoes : listed.outdated firstKept mixed = {respelled, fileName monthBefore} := by
    decide +kernel
  rw [hgoes] at hu hgone hkept
  refine ⟨u, ?_, hgone _ (by decide +kernel), hkept _ (by decide +kernel)⟩
  rw [hu]
  exact congrArg (fun n => (Except.ok n, u)) (by decide +kernel)

/-- **A purge goes by what a name reads as.** A file with two marks under a name that no month has
goes and counts for one. A file of an earlier month stays if the year is negative. And of two files
that tell one month, one with two marks and one with none, the answer makes three or four, after the
order in which they are listed. -/
theorem purge_by_name :
    (∀ m : Month, m.year ≤ Numeral.max31 → fileName m ≠ respelled) ∧
    (∃ u, listed.purge firstKept (listedTree [(respelled, markedFile ["1", "2"])]) =
        (.ok 1, u) ∧ u.node? (respelled :: listed.place) = none) ∧
    (beforeZero < firstKept ∧ ∃ u,
      listed.purge firstKept (listedTree [(fileName beforeZero, markedFile ["1"])]) =
        (.ok 0, u) ∧
      u.node? (fileName beforeZero :: listed.place) =
        (listedTree [(fileName beforeZero, markedFile ["1"])]).node?
          (fileName beforeZero :: listed.place)) ∧
    (listed.purge firstKept (listedTree [
      (fileName monthBefore, markedFile ["1", "2"]), (respelled, markedFile [])])).1 = .ok 3 ∧
    (listed.purge firstKept (listedTree [
      (respelled, markedFile []), (fileName monthBefore, markedFile ["1", "2"])])).1 = .ok 4 := by
  refine ⟨fileName_ne_respelled, ⟨_, rfl, ?_⟩, ⟨by decide, _, rfl, ?_⟩, ?_, ?_⟩
  · decide +kernel
  · decide +kernel
  · decide +kernel
  · decide +kernel

end FlagFiles

end OvertimeNotice
