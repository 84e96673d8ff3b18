import OvertimeNotice.Proofs.Runner.Layout

/-!
# What a run does besides

A run records itself, and its report is archived: in the tables of the runs and of the history, and
in the cache directory. None of this has to do with marks.

* `Results.node?_save`: what saving the figures of a month leaves alone.
* `World.Besides`: a world after such a thing.
* `besides_insertRun`, `besides_archive`: recording a run, archiving a report.
-/

namespace OvertimeNotice

/-! ## The file of results -/

namespace Results

variable {cacheDir : String} {month : Month} {t : Tree} {q : Place}

theorem isPlain_fileName (month : Month) : Path.isPlain (fileName month) = true := by
  have hhead : (fileName month).toList.head? = some 'o' := by
    unfold fileName
    rw [String.toList_append, String.toList_append]
    rfl
  exact Path.isPlain_of_head? hhead (by decide) (by decide)

theorem place_path (cacheDir : String) (month : Month) :
    (path cacheDir month).place = fileName month :: (Path.ofText cacheDir).place :=
  Path.place_child _ (isPlain_fileName month)

/-- The directories are made, and the file is written or it is not. -/
theorem save_cases (cacheDir : String) (month : Month) (snapshots : List Snapshot) (t : Tree) :
    let made := (t.makeDirectories (Path.ofText cacheDir)).2
    (save cacheDir month snapshots t).2 = made ∨
      made.writeText (path cacheDir month) (toJson (rows snapshots)).pretty =
        .ok (save cacheDir month snapshots t).2 := by
  unfold save
  split
  · rename_i hm
    exact .inl (by rw [hm])
  · rename_i hm
    rw [hm]
    split
    · exact .inl rfl
    · exact .inr ‹_›

/-- What is not the file stays as it was, and what was missing is still missing where no directory
was to be made. -/
theorem node?_save (snapshots : List Snapshot) (hfile : q ≠ (path cacheDir month).place)
    (hnew : q ∈ (Path.ofText cacheDir).passes → t.node? q ≠ none) :
    (save cacheDir month snapshots t).2.node? q = t.node? q := by
  have hmade := Tree.makeDirectories_gains t (Path.ofText cacheDir) q hnew
  rcases save_cases cacheDir month snapshots t with h | h
  · rw [h, hmade]
  · obtain ⟨-, -, hnodes⟩ := Tree.node?_writeText h
    rw [hnodes, if_neg hfile, hmade]

end Results

/-! ## Recording and archiving -/

namespace World

variable {home : Place} {K : Place → Prop} {t : Tree} {w v u : World} {tables : Tables}

/-- The database is in use before and after, with the same marks, and of the files only its own and
what is at places of `K` may differ. -/
structure Besides (home : Place) (K : Place → Prop) (w v : World) : Prop where
  inUse : ∃ tables tables', InUse home (.ready tables) w ∧ InUse home (.ready tables') v ∧
    tables'.marks = tables.marks
  agree : Tree.Agree (fun q => q ∉ home.family ∧ ¬K q) w.files v.files
  grows : w.files.Grows v.files

namespace Besides

theorem refl (K : Place → Prop) (h : InUse home (.ready tables) w) : Besides home K w w :=
  ⟨⟨tables, tables, h, h, rfl⟩, .refl _ _, .refl _⟩

theorem trans (h : Besides home K w v) (h' : Besides home K v u) : Besides home K w u := by
  obtain ⟨tables₁, tables₂, hw, hv, hmarks⟩ := h.inUse
  obtain ⟨tables₃, tables₄, hv', hu, hmarks'⟩ := h'.inUse
  have hcontent := hv.content.symm.trans hv'.content
  simp only [Content.database.injEq, Database.ready.injEq, and_true] at hcontent
  subst hcontent
  exact ⟨⟨tables₁, tables₄, hw, hu, hmarks'.trans hmarks⟩, h.agree.trans h'.agree,
    h.grows.trans h'.grows⟩

theorem serves (h : Besides home K w v) (hw : Serves home K t w) : Serves home K t v := by
  obtain ⟨-, tables', -, hv, -⟩ := h.inUse
  exact ⟨⟨tables', hv⟩, hw.others.trans h.agree, hw.grows.trans h.grows⟩

end Besides

/-- A call that changes other tables, if it changes any. -/
theorem besides_update (K : Place → Prop) {f : Database → Except DatabaseFault Database}
    (hf : ∀ tables d', f (.ready tables) = .ok d' →
      ∃ tables', d' = .ready tables' ∧ tables'.marks = tables.marks)
    (h : InUse home (.ready tables) w) : Besides home K w (call (update f) w).2 := by
  cases hd : f (.ready tables) with
  | error e =>
    rw [h.call_update_of_error hd]
    exact ⟨⟨tables, tables, h, h.met, rfl⟩, .refl _ _, .refl _⟩
  | ok d' =>
    obtain ⟨tables', rfl, hmarks⟩ := hf tables d' hd
    obtain ⟨-, h', ha⟩ := h.call_update hd
    obtain ⟨c, hc⟩ := h.logFile
    exact ⟨⟨tables, tables', h, h', hmarks⟩, (agree_of_ne_log ha).mono fun q hq => hq.1,
      Tree.grows_of_agree ha (by rw [hc]; simp)⟩

theorem besides_insertRun (K : Place → Prop) (row : RunRow) (h : InUse home (.ready tables) w) :
    Besides home K w (call (update fun d => d.insertRun row) w).2 := by
  refine besides_update K (fun tables d' hd => ?_) h
  simp only [Database.insertRun, Database.tables, Except.bind] at hd
  split at hd
  · cases hd
  · exact ⟨_, (Except.ok.inj hd).symm, rfl⟩

theorem besides_archiveHistory (K : Place → Prop) (records : List HistoryRecord)
    (h : InUse home (.ready tables) w) : Besides home K w (archiveHistory records w).2 := by
  unfold archiveHistory
  refine List.foldlRecOn (motive := fun acc : List String × World => Besides home K w acc.2)
    records _ (.refl K h) ?_
  intro acc hacc r _
  obtain ⟨-, tables', -, h', -⟩ := hacc.inUse
  have hr := besides_update K (f := fun d => d.appendHistory r)
    (fun tables d' hd => ⟨_, (Except.ok.inj hd).symm, rfl⟩) h'
  cases hcall : call (update fun d => d.appendHistory r) acc.2 with
  | mk answer v =>
    rw [hcall] at hr
    cases answer with
    | ok => exact hacc.trans hr
    | error f => exact hacc.trans hr

/-- Saving figures has to do with the cache directory only. -/
theorem save_kept (cacheDir : String) (month : Month) (snapshots : List Snapshot) (t : Tree) :
    Tree.Agree (fun q => ¬(Path.ofText cacheDir).Touches q) t
        (Results.save cacheDir month snapshots t).2 ∧
      t.Grows (Results.save cacheDir month snapshots t).2 := by
  constructor
  · intro q hq
    refine Results.node?_save _ (fun he => hq ?_) fun hp => absurd (Path.touches_of_passes hp) hq
    rw [he, Results.place_path]
    exact Path.touches_of_below (List.suffix_cons _ _)
  · have hgrows := (Tree.makeDirectories_gains t (Path.ofText cacheDir)).grows
    rcases Results.save_cases cacheDir month snapshots t with h | h
    · rwa [h]
    · exact hgrows.trans (Tree.grows_writeText h)

theorem besides_archive (report : Report) (cacheDir recordedAt : String)
    (hK : ∀ q, (Path.ofText cacheDir).Touches q → K q) (hhome : ∀ q ∈ home.family, ¬K q)
    (h : InUse home (.ready tables) w) :
    Besides home K w (archive report cacheDir recordedAt w).2 := by
  obtain ⟨ha, hg⟩ := save_kept cacheDir report.month report.evaluated w.files
  have hsaved := h.withFiles (ha.mono fun q hq hc => hhome q hq (hK q hc))
  have hsave : Besides home K w
      { w with files := (Results.save cacheDir report.month report.evaluated w.files).2 } :=
    ⟨⟨tables, tables, h, hsaved, rfl⟩, ha.mono fun q hq hc => hq.2 (hK q hc), hg⟩
  exact hsave.trans (besides_archiveHistory K _ hsaved)

end World

end OvertimeNotice
