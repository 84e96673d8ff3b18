import Mathlib.Data.Finset.Dedup
import OvertimeNotice.Proofs.State.MonthFile

/-!
# Keys of marks

Any text may be stored as a key. Few of them tell a marker: one text tells the direct notice, and a
step is told by its percentage, with or without a plus sign and zeros in front. The key under which
a marker is stored is one of those that tell it, so a key that tells a marker can be replaced by
that one wherever it is stored.

* `Numeral.spells_iff`: a number and the texts that spell it.
* `Marker.Tells`, `Marker.ofKey?_eq_level`, `Marker.ofKey?_eq_none`: what a key tells.
* `Marker.canonicalKey`, `Marker.ofKey?_canonicalKey`: the usual key for the same marker.
* `MonthFile.rekeyed`, `Database.rekeyed`: a month's file and a database with other keys.
* `Marker.keys_exact`: what keys tell, and that the usual ones tell the same.
-/

namespace OvertimeNotice

/-! ## Spellings of a number -/

namespace Numeral

variable {xs ys cs : List Char} {n : Nat}

/-- So many digits of one number can only be written in one way. -/
theorem eq_of_ofDigits_eq (hx : ∀ c ∈ xs, c.isDigit = true) (hy : ∀ c ∈ ys, c.isDigit = true)
    (hlength : xs.length = ys.length) (h : ofDigits xs = ofDigits ys) : xs = ys := by
  have hnil : EndsDigits [] := nofun
  have hxy := digits_lt_digits hx hy hnil hnil
  have hyx := digits_lt_digits hy hx hnil hnil
  simp only [List.append_nil, hlength, h, Nat.lt_irrefl, List.lt_irrefl, and_false, or_false,
    iff_false] at hxy hyx
  exact List.le_antisymm (List.not_lt.mp hyx) (List.not_lt.mp hxy)

theorem eq_padded (hne : cs ≠ []) (h : ∀ c ∈ cs, c.isDigit = true) :
    cs = padded cs.length (ofDigits cs) := by
  obtain ⟨c, cs, rfl⟩ := List.exists_cons_of_ne_nil hne
  have hlength : (padded (cs.length + 1) (ofDigits (c :: cs))).length = cs.length + 1 :=
    length_padded (ofDigits_lt h)
  exact eq_of_ofDigits_eq h (fun _ => isDigit_of_mem_padded) hlength.symm (ofDigits_padded _ _).symm

/-- A number is spelled by its digits, with zeros in front or not, maybe after a plus sign. -/
theorem spells_iff : Spells cs n ↔ ∃ zeros,
    cs = List.replicate zeros '0' ++ natDigits n ∨
      cs = '+' :: (List.replicate zeros '0' ++ natDigits n) := by
  constructor
  · rintro ⟨ds, hcs, hne, hall, rfl⟩
    refine ⟨ds.length - (natDigits (ofDigits ds)).length, ?_⟩
    have hds : ds = List.replicate _ '0' ++ natDigits (ofDigits ds) := eq_padded hne hall
    rwa [← hds]
  · rintro ⟨zeros, hcs⟩
    have hpadded : List.replicate zeros '0' ++ natDigits n =
        padded (zeros + (natDigits n).length) n := by
      rw [padded, zeroPad, Nat.add_sub_cancel]
    rw [hpadded] at hcs
    exact ⟨_, hcs, padded_ne_nil _ _, fun _ => isDigit_of_mem_padded, ofDigits_padded _ _⟩

end Numeral

/-! ## Keys that tell a marker -/

namespace Severity

variable {s : Severity} {p : Nat}

theorem ofStep?_eq_some : ofStep? p = some s ↔ s.percent? = some p := by
  constructor
  · intro h
    rw [ofStep?] at h
    have hp := List.find?_some h
    exact beq_iff_eq.mp hp
  · intro h
    cases s <;> simp only [percent?, Option.some.injEq, reduceCtorEq] at h <;> subst h <;> rfl

theorem le_of_percent? (h : s.percent? = some p) : p ≤ Numeral.max32 := by
  cases s <;> simp only [percent?, Option.some.injEq, reduceCtorEq] at h <;> subst h <;> decide

theorem isNotifiable_of_percent? (h : s.percent? = some p) : s.isNotifiable = true := by
  cases s <;> first | rfl | exact nomatch h

end Severity

namespace Marker

variable {k : String} {s : Severity} {m : Marker}

/-- The key is the percentage of a step, with zeros in front or not, maybe after a plus sign. -/
def Tells (k : String) (s : Severity) : Prop :=
  ∃ p zeros, s.percent? = some p ∧
    (k.toList = List.replicate zeros '0' ++ Numeral.natDigits p ∨
      k.toList = '+' :: (List.replicate zeros '0' ++ Numeral.natDigits p))

theorem tells_iff : Tells k s ↔ ∃ p, s.percent? = some p ∧ Numeral.Spells k.toList p := by
  simp only [Tells, Numeral.spells_iff, exists_and_left]

/-- The key of the direct notice is no number. -/
theorem not_tells_selfEscalationKey : ¬Tells selfEscalationKey s := by
  rw [tells_iff]
  rintro ⟨p, hp, hspells⟩
  have hread := Numeral.read?_eq_some.mpr ⟨hspells, Severity.le_of_percent? hp⟩
  have hnone : Numeral.read? Numeral.max32 selfEscalationKey.toList = none := by decide +kernel
  rw [hnone] at hread
  exact nomatch hread

theorem ofKey?_of_ne (h : k ≠ selfEscalationKey) : ofKey? k =
    ((Numeral.read? Numeral.max32 k.toList).bind Severity.ofStep?).map level := if_neg h

theorem ofKey?_eq_selfEscalation : ofKey? k = some selfEscalation ↔ k = selfEscalationKey := by
  constructor
  · intro h
    by_contra hne
    rw [ofKey?_of_ne hne, Option.map_eq_some_iff] at h
    obtain ⟨s, -, hs⟩ := h
    exact nomatch hs
  · rintro rfl
    rfl

/-- What tells a step is its percentage. -/
theorem ofKey?_eq_level : ofKey? k = some (level s) ↔ Tells k s := by
  by_cases hself : k = selfEscalationKey
  · subst hself
    refine iff_of_false ?_ not_tells_selfEscalationKey
    rw [ofKey?_eq_selfEscalation.mpr rfl]
    exact nofun
  · simp only [ofKey?_of_ne hself, tells_iff, Option.map_eq_some_iff, level.injEq, exists_eq_right,
      Option.bind_eq_some_iff, Severity.ofStep?_eq_some, Numeral.read?_eq_some]
    constructor
    · rintro ⟨p, ⟨hspells, -⟩, hp⟩
      exact ⟨p, hp, hspells⟩
    · rintro ⟨p, hp, hspells⟩
      exact ⟨p, ⟨hspells, Severity.le_of_percent? hp⟩, hp⟩

/-- All other texts tell no marker. -/
theorem ofKey?_eq_none : ofKey? k = none ↔ k ≠ selfEscalationKey ∧ ∀ s, ¬Tells k s := by
  rw [Option.eq_none_iff_forall_ne_some]
  constructor
  · intro h
    exact ⟨fun hk => h _ (ofKey?_eq_selfEscalation.mpr hk), fun s hs =>
      h _ (ofKey?_eq_level.mpr hs)⟩
  · rintro ⟨hself, hlevel⟩ (s | _) h
    · exact hlevel s (ofKey?_eq_level.mp h)
    · exact hself (ofKey?_eq_selfEscalation.mp h)

/-- The key of a marker that was told tells the same marker. -/
theorem ofKey?_key_of_told (h : ofKey? k = some m) : ofKey? m.key = some m := by
  refine ofKey?_key ?_
  rintro rfl
  obtain ⟨p, -, hp, -⟩ := ofKey?_eq_level.mp h
  exact nomatch hp

/-- The key under which the marker that a key tells is stored; a key that tells none stays. -/
def canonicalKey (k : String) : String := (ofKey? k).elim k key

theorem ofKey?_canonicalKey (k : String) : ofKey? (canonicalKey k) = ofKey? k := by
  cases h : ofKey? k with
  | none => rw [canonicalKey, h, Option.elim_none, h]
  | some m => rw [canonicalKey, h, Option.elim_some, ofKey?_key_of_told h]

end Marker

/-! ## Stored keys -/

section

variable {change : String → String} {month : Month} {x : Mark}

/-- The map with every value changed. -/
def TextMap.mapValues {α β : Type} (m : TextMap α) (f : α → β) : TextMap β :=
  ⟨m.toList.map fun e => (e.1, f e.2), by rw [List.map_map]; exact m.ascending⟩

theorem TextMap.find?_mapValues {α β : Type} (m : TextMap α) (f : α → β) (k : String) :
    (m.mapValues f).find? k = (m.find? k).map f := by
  show (m.toList.map fun e => (e.1, f e.2)).lookup k = (m.toList.lookup k).map f
  induction m.toList with
  | nil => rfl
  | cons e es ih =>
    rw [List.map_cons, Entries.lookup_entry, ih, Entries.lookup_entry k e.1 e.2]
    split <;> rfl

namespace MonthFile

/-- The file with every key changed. -/
def rekeyed (change : String → String) (f : MonthFile) : MonthFile :=
  { f with entries := f.entries.mapValues fun ks => .ofList (ks.toList.map change) }

theorem mem_keysOf_rekeyed {f : MonthFile} {employee k : String} :
    k ∈ (f.rekeyed change).keysOf employee ↔ ∃ k' ∈ f.keysOf employee, change k' = k := by
  rw [keysOf, keysOf, rekeyed, TextMap.find?_mapValues]
  cases f.entries.find? employee with
  | none => simp
  | some ks =>
    rw [Option.map_some, Option.getD_some, Option.getD_some, TextSet.mem_ofList, List.mem_map]
    exact Iff.rfl

/-- Keys that tell what the former ones told leave the marks as they were. -/
theorem mem_marks_rekeyed (h : ∀ k, Marker.ofKey? (change k) = Marker.ofKey? k) {f : MonthFile} :
    x ∈ (f.rekeyed change).marks month ↔ x ∈ f.marks month := by
  simp only [mem_marks, mem_keysOf_rekeyed]
  refine and_congr_right fun _ => ⟨?_, ?_⟩
  · rintro ⟨_, ⟨k, hk, rfl⟩, hmarker⟩
    exact ⟨k, hk, (h k).symm.trans hmarker⟩
  · rintro ⟨k, hk, hmarker⟩
    exact ⟨_, ⟨k, hk, rfl⟩, (h k).trans hmarker⟩

end MonthFile

/-- A month whose file is the same but for its keys is read as the same marks. -/
theorem FlagFiles.load_rekeyed (h : ∀ k, Marker.ofKey? (change k) = Marker.ofKey? k)
    {s : FlagFiles} {t u : Tree}
    (hread : s.read month u = (s.read month t).map (MonthFile.rekeyed change)) :
    (s.load month u).map List.toFinset = (s.load month t).map List.toFinset := by
  rw [load, load, hread]
  cases s.read month t with
  | error f => rfl
  | ok file =>
    refine congrArg Except.ok (Finset.ext fun x => ?_)
    rw [List.mem_toFinset, List.mem_toFinset, MonthFile.mem_marks_rekeyed h]

namespace Tables

/-- The tables with the key of every mark changed. Rows that become equal are one row. -/
def rekeyed (change : String → String) (t : Tables) : Tables :=
  { t with marks := (t.marks.map fun r => { r with marker := change r.marker }).dedup }

theorem mem_marksOf_rekeyed (h : ∀ k, Marker.ofKey? (change k) = Marker.ofKey? k) {t : Tables} :
    x ∈ (t.rekeyed change).marksOf month ↔ x ∈ t.marksOf month := by
  simp only [mem_marksOf, rekeyed, List.mem_dedup, List.mem_map]
  refine and_congr_right fun _ => ⟨?_, ?_⟩
  · rintro ⟨_, ⟨r, hr, rfl⟩, hmonth, hemployee, hmarker⟩
    exact ⟨r, hr, hmonth, hemployee, (h r.marker).symm.trans hmarker⟩
  · rintro ⟨r, hr, hmonth, hemployee, hmarker⟩
    exact ⟨_, ⟨r, hr, rfl⟩, hmonth, hemployee, (h r.marker).trans hmarker⟩

end Tables

namespace Database

/-- The database with the key of every mark changed. -/
def rekeyed (change : String → String) : Database → Database
  | blank => blank
  | ready t => ready (t.rekeyed change)

theorem loadMarks_rekeyed (h : ∀ k, Marker.ofKey? (change k) = Marker.ofKey? k) (d : Database) :
    ((d.rekeyed change).loadMarks month).map List.toFinset =
      (d.loadMarks month).map List.toFinset := by
  cases d with
  | blank => rfl
  | ready t =>
    rw [rekeyed, Tables.loadMarks_ready, Tables.loadMarks_ready]
    refine congrArg Except.ok (Finset.ext fun x => ?_)
    rw [List.mem_toFinset, List.mem_toFinset, Tables.mem_marksOf_rekeyed h]

end Database

end

/-- **What keys tell.** One text tells the direct notice, the percentage of a step tells the step,
and nothing else tells a marker. The key of a marker that was told tells it again. So both stores
read the same set of marks when every key that tells a marker is replaced by the key of that
marker. -/
theorem Marker.keys_exact :
    (∀ k, ofKey? k = some selfEscalation ↔ k = "self_escalation") ∧
      (∀ k s, ofKey? k = some (level s) ↔ s.isNotifiable = true ∧ Tells k s) ∧
      (∀ k, ofKey? k = none ↔ k ≠ "self_escalation" ∧ ∀ s, ¬Tells k s) ∧
      (∀ k m, ofKey? k = some m → ofKey? m.key = some m) ∧
      (∀ (s : FlagFiles) (month : Month) (t u : Tree),
        s.read month u = (s.read month t).map (MonthFile.rekeyed canonicalKey) →
          (s.load month u).map List.toFinset = (s.load month t).map List.toFinset) ∧
      ∀ (d : Database) (month : Month),
        ((d.rekeyed canonicalKey).loadMarks month).map List.toFinset =
          (d.loadMarks month).map List.toFinset := by
  refine ⟨fun k => ofKey?_eq_selfEscalation, fun k s => ?_, fun k => ofKey?_eq_none,
    fun k m => ofKey?_key_of_told, fun s month t u => FlagFiles.load_rekeyed ofKey?_canonicalKey,
    fun d month => d.loadMarks_rekeyed ofKey?_canonicalKey⟩
  rw [ofKey?_eq_level, iff_and_self]
  rintro ⟨p, -, hp, -⟩
  exact Severity.isNotifiable_of_percent? hp

private def keyedMonth : Month := (Month.of? 2026 10).getD default

/-- A file in which an employee has the given keys. -/
private def keyedFile (keys : List String) : MonthFile :=
  { month := none, entries := .ofList [("1001", .ofList keys)] }

private def keyedTree (keys : List String) : Tree :=
  ⟨[("flags", .directory
    [(FlagFiles.fileName keyedMonth, .file (.ofText (keyedFile keys).toJson.pretty))])]⟩

/-- Two keys of one step and a key of none are read as one mark, and so is the usual key of that
step beside the key of none. -/
theorem Marker.keys_exact_sample :
    ofKey? "+0060" = some (.level .p60) ∧ ofKey? (key (.level .p60)) = some (.level .p60) ∧
      ∃ odd usual : Tree,
        FlagFiles.read ⟨"flags"⟩ keyedMonth odd = .ok (keyedFile ["+0060", "060", "61"]) ∧
        FlagFiles.read ⟨"flags"⟩ keyedMonth usual = .ok (keyedFile ["60", "61"]) ∧
        (FlagFiles.load ⟨"flags"⟩ keyedMonth usual).map List.toFinset =
          (FlagFiles.load ⟨"flags"⟩ keyedMonth odd).map List.toFinset := by
  obtain ⟨-, -, -, hagain, hfiles, -⟩ := Marker.keys_exact
  have hkey : ofKey? "+0060" = some (.level .p60) := by decide +kernel
  have hodd : FlagFiles.read ⟨"flags"⟩ keyedMonth (keyedTree ["+0060", "060", "61"]) =
      .ok (keyedFile ["+0060", "060", "61"]) := by decide +kernel
  have husual : FlagFiles.read ⟨"flags"⟩ keyedMonth (keyedTree ["60", "61"]) =
      .ok (keyedFile ["60", "61"]) := by decide +kernel
  have hrekeyed : (keyedFile ["+0060", "060", "61"]).rekeyed canonicalKey =
      keyedFile ["60", "61"] := by decide +kernel
  refine ⟨hkey, hagain _ _ hkey, _, _, hodd, husual, hfiles _ _ _ _ ?_⟩
  rw [husual, hodd, Except.map, hrekeyed]

end OvertimeNotice
