import OvertimeNotice.Proofs.Runner.Layout

/-!
# What an invocation would remember

The marks of a month are whatever an invocation would load from its backend, once it has set the
backend up. Between invocations the database is at rest, so this is what its tables say, or an error
if there is no getting at it; for flag files it is a matter of one file.

* `Runner.remembered`: the marks of a month in a tree.
* `remembered_of_reaches`, `exists_remembered_error`: marks in the database.
* `remembered_eq_load`, `remembered_setUp_error`, `remembered_congr`: marks in flag files.
* `readMarks_remembered_congr`: what others may change; `Unused.readMarks_remembered`: nothing is
  remembered at first.
-/

namespace OvertimeNotice

namespace Runner

/-- What an invocation on a tree would load for a month. -/
def remembered (s : Settings) (month : Month) (t : Tree) : Except Failure (List Mark) :=
  if s.backend = "file" then
    match s.store.setUp t with
    | (.error f, _) => .error (.file f)
    | (.ok (), t) => s.store.load month t
  else
    match World.connect? t s.database with
    | .error f => .error (.database f)
    | .ok w =>
      match World.call World.migrate w with
      | (.error f, _) => .error f
      | (.ok (), w) => (World.backend.load month w).1

variable {s : Settings} {t u : Tree} {d : Database} {tables : Tables} {month : Month}

/-! ## In the database -/

section

variable (hb : s.backend ≠ "file") (ha : s.Apart) (hr : t.Rests s.home d)

include hb ha hr

theorem remembered_of_reaches (h : World.Reaches t s.database s.home)
    (hfits : World.fits s.home World.journalEnding = true) (hd : d.migrate = .ready tables)
    (month : Month) : remembered s month t = .ok (tables.marksOf month) := by
  obtain ⟨w, w', tables', hw, hw', hd', huse, -⟩ := World.connect_of_reaches ha.named hr h hfits
  obtain rfl : tables = tables' := by
    rw [hd] at hd'
    cases hd'
    rfl
  simp only [remembered, if_neg hb, hw, hw']
  exact huse.reading month

/-- There is no getting at the database, or there is no room to change it. -/
theorem exists_remembered_error (h : ¬(World.Reaches t s.database s.home ∧
    World.fits s.home World.journalEnding = true)) (month : Month) :
    ∃ f, remembered s month t = .error f := by
  by_cases hreach : World.Reaches t s.database s.home
  · have hfits : World.fits s.home World.journalEnding = false := by
      rw [← Bool.not_eq_true]
      exact fun hfits => h ⟨hreach, hfits⟩
    obtain ⟨w, w', f, hw, hw', -⟩ := World.connect_unfit ha.named hr hreach hfits
    exact ⟨f, by simp only [remembered, if_neg hb, hw, hw']⟩
  · obtain ⟨f, hf⟩ := World.connect_of_not_reaches ha.named rfl hreach
    exact ⟨.database f, by simp only [remembered, if_neg hb, hf]⟩

end

/-- What stands on the way of the database is there to stay. -/
theorem reaches_of_gone (ha : s.Apart) {d' : Database} (hr : t.Rests s.home d)
    (hr' : u.Rests s.home d') (hg : t.Grows u) {K : Place → Prop}
    (hothers : Tree.Agree (fun q => q ∉ s.home.family ∧ ¬K q) t u)
    (hK : ∀ q, s.DatabaseTouches q → K q → q <:+ s.home.tail)
    (h : World.Reaches t s.database s.home) : World.Reaches u s.database s.home := by
  obtain ⟨hhome, hup⟩ := h
  have hway : Tree.Agree (· ∈ s.databasePath.passes.dropLast) t u := by
    intro q hq
    have htouches : s.databasePath.Touches q := .inl ((List.dropLast_sublist _).subset hq)
    by_cases hfamily : q ∈ s.home.family
    · rcases Place.mem_family.mp hfamily with rfl | rfl | rfl | rfl
      · exact absurd hq ha.arrives
      · exact hr'.journal.trans hr.journal.symm
      · exact hr'.log.trans hr.log.symm
      · exact hr'.index.trans hr.index.symm
    · by_cases hk : K q
      · -- it is a directory above the database already
        have habove := hK q (.inl htouches) hk
        have hdir : t.node? q = some .directory := by
          rcases habove with ⟨front, hfront⟩
          cases front with
          | nil =>
            rw [List.nil_append] at hfront
            rw [hfront, hup]
          | cons x front =>
            exact Tree.node?_above hup ⟨front, by rw [← hfront]; rfl⟩
        exact (hg q hdir).trans hdir.symm
      · exact hothers q ⟨hfamily, hk⟩
  exact ⟨(World.home?_congr hway).trans hhome, hg _ hup⟩

/-! ## In flag files -/

section

variable (hb : s.backend = "file")

include hb

/-- A store whose directory can be had is read there. -/
theorem remembered_of_setUp (h : s.store.setUp t = (.ok (), u)) (month : Month) :
    remembered s month t = s.store.load month u := by
  simp only [remembered, if_pos hb, h]

theorem remembered_eq_load (h : s.store.IsSetUp t) (month : Month) :
    remembered s month t = s.store.load month t :=
  remembered_of_setUp hb (Tree.makeDirectories_of_isDirectory h) month

theorem remembered_setUp_error {f : FileFault} (h : s.store.setUp t = (.error f, u))
    (month : Month) :
    remembered s month t = .error (.file f) := by
  simp only [remembered, if_pos hb, h]

/-- A store depends on what its path has to do with. -/
theorem remembered_congr (hp : s.statePath ≠ []) (h : Tree.Agree s.statePath.Touches t u)
    (hm : month.IsCommon) : remembered s month u = remembered s month t := by
  obtain ⟨h₁, h₂⟩ := Tree.makeDirectories_congr (p := s.statePath) h
    fun q => Path.touches_of_passes
  cases ht : s.store.setUp t with
  | mk r t₁ =>
    cases hu : s.store.setUp u with
    | mk r' u₁ =>
      obtain rfl : r' = r := by
        have h₁ : (s.store.setUp u).1 = (s.store.setUp t).1 := h₁
        rwa [ht, hu] at h₁
      cases r' with
      | error f => rw [remembered_setUp_error hb ht, remembered_setUp_error hb hu]
      | ok =>
        have hagree : Tree.Agree s.statePath.Touches t₁ u₁ := by
          have h₂ : Tree.Agree s.statePath.Touches (s.store.setUp t).2 (s.store.setUp u).2 := h₂
          rwa [ht, hu] at h₂
        rw [remembered_of_setUp hb ht, remembered_of_setUp hb hu]
        refine FlagFiles.load_congr (Tree.isDirectory_of_makeDirectories hp ht)
          (Tree.isDirectory_of_makeDirectories hp hu) hm (hagree _ ?_)
        exact Path.touches_of_below (List.suffix_cons _ _)

end

/-! ## What others do -/

theorem rests_congr (hr : t.Rests s.home d) (h : Tree.Agree s.DatabaseTouches t u) :
    u.Rests s.home d := by
  have hfamily : ∀ q ∈ s.home.family, u.node? q = t.node? q := fun q hq => h q (.inr hq)
  refine ⟨?_, ?_, ?_, ?_⟩
  · rw [hfamily _ (by simp [Place.family])]
    exact hr.file
  · rw [hfamily _ (by simp [Place.family]), hr.journal]
  · rw [hfamily _ (by simp [Place.family]), hr.log]
  · rw [hfamily _ (by simp [Place.family]), hr.index]

theorem reaches_congr (h : Tree.Agree s.DatabaseTouches t u) :
    World.Reaches u s.database s.home ↔ World.Reaches t s.database s.home := by
  have hpasses : Tree.Agree (· ∈ s.databasePath.passes.dropLast) t u := fun q hq =>
    h q (.inl (.inl ((List.dropLast_sublist _).subset hq)))
  have hup : u.node? s.home.tail = t.node? s.home.tail :=
    h _ (.inl (.inr (.inl (List.tail_suffix _))))
  rw [World.Reaches, World.Reaches, World.home?_congr hpasses, hup]

/-- What is remembered depends on what the database and the flag files have to do with. -/
theorem readMarks_remembered_congr (ha : s.Apart) (hr : t.Rests s.home d)
    (h : Tree.Agree (fun q => s.DatabaseTouches q ∨ s.statePath.Touches q) t u)
    (hp : s.statePath ≠ []) (hm : month.IsCommon) :
    readMarks (remembered s month u) = readMarks (remembered s month t) := by
  have hdatabase : Tree.Agree s.DatabaseTouches t u := h.mono fun q => .inl
  by_cases hb : s.backend = "file"
  · rw [remembered_congr hb hp (h.mono fun q => .inr) hm]
  have hr' := rests_congr hr hdatabase
  by_cases hopen : World.Reaches t s.database s.home ∧ World.fits s.home World.journalEnding = true
  · obtain ⟨tables, hd⟩ : ∃ tables, d.migrate = .ready tables := by
      cases d <;> exact ⟨_, rfl⟩
    rw [remembered_of_reaches hb ha hr hopen.1 hopen.2 hd,
      remembered_of_reaches hb ha hr' ((reaches_congr hdatabase).mpr hopen.1) hopen.2 hd]
  · obtain ⟨f, hf⟩ := exists_remembered_error hb ha hr hopen month
    obtain ⟨f', hf'⟩ := exists_remembered_error hb ha hr'
      (fun ho => hopen ⟨(reaches_congr hdatabase).mp ho.1, ho.2⟩) month
    rw [hf, hf', readMarks_error, readMarks_error]

/-- Nothing is stored: the files of the database and those of the flags are all missing. -/
structure Unused (s : Settings) (t : Tree) : Prop where
  database : ∀ q ∈ s.home.family, t.node? q = none
  flags : ∀ name, t.node? (name :: s.store.place) = none

theorem Unused.rests (h : Unused s t) : t.Rests s.home .blank :=
  ⟨.inr ⟨rfl, .inl (h.database _ (by simp [Place.family]))⟩, h.database _ (by simp [Place.family]),
    h.database _ (by simp [Place.family]), h.database _ (by simp [Place.family])⟩

/-- Nothing is remembered where nothing is stored. -/
theorem Unused.readMarks_remembered (h : Unused s t) (ha : s.Apart) (month : Month) :
    readMarks (remembered s month t) = [] := by
  by_cases hb : s.backend = "file"
  · cases hset : s.store.setUp t with
    | mk answer u =>
      cases answer with
      | error f => rw [remembered_setUp_error hb hset, readMarks_error]
      | ok =>
        rw [remembered_of_setUp hb hset]
        have hnofile : ∀ c,
            u.node? (FlagFiles.fileName month :: s.store.place) ≠ some (.file c) := by
          intro c hc
          have hfile := Tree.makeDirectories_file (t := t) (p := s.statePath) (c := c)
            (q := FlagFiles.fileName month :: s.store.place)
          rw [show t.makeDirectories s.statePath = (.ok (), u) from hset] at hfile
          exact nomatch (hfile hc).symm.trans (h.flags _)
        exact FlagFiles.readMarks_load_of_no_file hnofile
  · by_cases hopen : World.Reaches t s.database s.home ∧
        World.fits s.home World.journalEnding = true
    · rw [remembered_of_reaches hb ha h.rests hopen.1 hopen.2 rfl, readMarks_ok,
        List.eq_nil_iff_forall_not_mem]
      intro x hx
      obtain ⟨-, r, hr, -⟩ := Tables.mem_marksOf.mp hx
      exact absurd hr List.not_mem_nil
    · obtain ⟨f, hf⟩ := exists_remembered_error hb ha h.rests hopen month
      rw [hf, readMarks_error]

end Runner

end OvertimeNotice
