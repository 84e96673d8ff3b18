import OvertimeNotice.Proofs.Runner.Pass
import OvertimeNotice.Proofs.Runner.Recall

/-!
# One invocation

An invocation finds the database at rest and leaves it at rest, and what it would remember of a
month is accounted for by how it ended.

* `Runner.withDatabase_account`: a run that is due.
* `Runner.invokeAt_account`: an invocation.
* `Runner.legible_of_invoke`, `Runner.refusal_of_invoke`: the lines of its plan read back, and it
  ends by no refusal that its streams had not in store.
-/

namespace OvertimeNotice

namespace Config

variable {c : Config}

theorem validate_of_load {dataDir : String} {t : Tree} (h : load dataDir t = .ok c) :
    c.validate = .ok () := by
  rw [load] at h
  split at h
  · exact nomatch h
  · split at h
    · exact nomatch h
    · split at h
      · exact nomatch h
      · rename_i hv
        rwa [← Except.ok.inj h]

end Config

namespace Runner

variable {s : Settings} {t u : Tree} {d : Database} {w v : World} {tables : Tables} {c : Config}
  {now : Moment} {runId : String} {decision : RunDecision} {o : Console}

/-! ## Closing -/

theorem grows_of_family {home : Place} (h : Tree.Agree (· ∉ home.family) t u)
    (hf : ∀ q ∈ home.family, t.node? q ≠ some .directory) : t.Grows u := by
  refine Tree.grows_of_nodes fun q => ?_
  by_cases hq : q ∈ home.family
  · exact .inr (hf q hq)
  · exact .inl (h q hq)

theorem not_directory_of_rests {home : Place} (h : t.Rests home d) :
    ∀ q ∈ home.family, t.node? q ≠ some .directory := by
  intro q hq
  rcases Place.mem_family.mp hq with rfl | rfl | rfl | rfl
  · rcases h.file with ⟨hf, -⟩ | ⟨-, hf | hf⟩ <;> (rw [hf]; simp)
  · rw [h.journal]
    simp
  · rw [h.log]
    simp
  · rw [h.index]
    simp

theorem not_directory_of_inUse {home : Place} (h : World.InUse home d w) :
    ∀ q ∈ home.family, w.files.node? q ≠ some .directory := by
  obtain ⟨d₀, hf, -⟩ := h.file
  obtain ⟨c, hc⟩ := h.logFile
  obtain ⟨c', hc'⟩ := h.indexFile
  intro q hq
  rcases Place.mem_family.mp hq with rfl | rfl | rfl | rfl
  · rw [hf]
    simp
  · rw [h.journal]
    simp
  · rw [hc]
    simp
  · rw [hc']
    simp

theorem home_ne_of_rests {home : Place} (h : t.Rests home d) : home ≠ [] := by
  rintro rfl
  refine not_directory_of_rests h [] (List.mem_cons_self ..) ?_
  exact Tree.node?_of_isTop t rfl

/-- What is there when a database in use is closed. -/
theorem closes {home : Place} (h : World.InUse home d w)
    (hfits : World.fits home World.journalEnding = true) : w.close.Rests home d ∧
      Tree.Agree (· ∉ home.family) w.files w.close ∧ w.files.Grows w.close := by
  obtain ⟨hr, -, ha⟩ := World.close_rests h hfits
  exact ⟨hr, ha, grows_of_family ha (not_directory_of_inUse h)⟩

/-! ## Flag files -/

theorem withBackend_of_error {f : FileFault} (hb : s.backend = "file")
    (h : s.store.setUp w.files = (.error f, u)) : withBackend o c s now runId decision w =
      (.failed (.failed (.file f)), { w with files := u }) := by
  have hstore : ({ dir := s.stateDir } : FlagFiles) = s.store := rfl
  rw [withBackend, if_neg (by rw [hb]; decide), if_pos hb]
  simp only [hstore, h]

theorem withBackend_of_ok (hb : s.backend = "file") (h : s.store.setUp w.files = (.ok (), u)) :
    withBackend o c s now runId decision w =
      pass o (World.flagBackend s.store) c s now runId decision { w with files := u } := by
  have hstore : ({ dir := s.stateDir } : FlagFiles) = s.store := rfl
  rw [withBackend, if_neg (by rw [hb]; decide), if_pos hb]
  simp only [hstore, h]

section

variable (ha : s.Apart) (hr : t.Rests s.home d) (hd : d.migrate = .ready tables)
  (hreach : World.Reaches t s.database s.home)
  (hfits : World.fits s.home World.journalEnding = true) (hw : World.InUse s.home (.ready tables) w)
  (hagree : Tree.Agree (· ∉ s.home.family) t w.files)

include ha hr hd hreach hfits hw hagree

/-- What the database says is what will be remembered. -/
theorem remembered_close (hb : s.backend ≠ "file")
    (hv : World.Serves s.home s.cachePath.Touches w.files v) :
    (∃ d', v.close.Rests s.home d') ∧
      (∀ m, remembered s m t = World.backend.reading m w) ∧
      ∀ m, remembered s m v.close = World.backend.reading m v := by
  obtain ⟨tables', huse⟩ := hv.inUse
  obtain ⟨hrest, hclosed, hgrows⟩ := closes huse hfits
  have hothers : Tree.Agree (fun q => q ∉ s.home.family ∧ ¬s.cachePath.Touches q) t v.close :=
    ((hagree.mono fun q hq => hq.1).trans hv.others).trans (hclosed.mono fun q hq => hq.1)
  have hgrown : t.Grows v.close :=
    ((grows_of_family hagree (not_directory_of_rests hr)).trans hv.grows).trans hgrows
  have hreach' := reaches_of_gone ha hr hrest hgrown hothers
    (fun q hq hc => (ha.database_cache q hq hc).1) hreach
  refine ⟨⟨_, hrest⟩, fun m => ?_, fun m => ?_⟩
  · rw [remembered_of_reaches hb ha hr hreach hfits hd, hw.reading]
  · rw [remembered_of_reaches hb ha hrest hreach' hfits rfl, huse.reading]

theorem withBackend_sqlite (hb : s.backend = "sqlite") (hm : now.toMonth.IsCommon)
    (hc : ∀ d, c.ceilingFor d ≠ some 0) :
    let r := withBackend o c s now runId decision w
    (∃ d', r.2.close.Rests s.home d') ∧
      Account now.toMonth (fun m => remembered s m t) (fun m => remembered s m r.2.close) r.1 := by
  have hnot : s.backend ≠ "file" := by
    rw [hb]
    decide
  have hne := home_ne_of_rests hr
  have hrun : withBackend o c s now runId decision w =
      pass o World.backend c s now runId decision w := by
    rw [withBackend, if_pos hb]
  obtain ⟨hg, hacc⟩ := pass_account runId decision
    (keeps_backend (t := w.files) fun q hq => ha.not_cache_of_family hne hq)
    ⟨⟨tables, hw⟩, .refl _ _, .refl _⟩ hm hc
  obtain ⟨hrest, hbefore, hafter⟩ := remembered_close ha hr hd hreach hfits hw hagree hnot hg
  rw [hrun]
  exact ⟨hrest, hacc.congr hm (fun m _ _ => hbefore m) fun m _ _ => hafter m⟩

omit hd hreach in
theorem withBackend_file (hb : s.backend = "file") (hm : now.toMonth.IsCommon)
    (hc : ∀ d, c.ceilingFor d ≠ some 0) :
    let r := withBackend o c s now runId decision w
    (∃ d', r.2.close.Rests s.home d') ∧
      Account now.toMonth (fun m => remembered s m t) (fun m => remembered s m r.2.close) r.1 := by
  have hne := home_ne_of_rests hr
  have hp := ha.statePath_ne hne
  have hstate : ∀ q, s.statePath.Touches q → q ∉ s.home.family := fun q hq hf =>
    ha.not_state_of_family hne hf hq
  have hbelow : ∀ q, s.store.place <:+ q → q ∉ s.home.family ∧ ¬s.cachePath.Touches q :=
    fun q hq => ⟨hstate q (Path.touches_of_below hq), ha.not_cache_of_below hne hq⟩
  have hbefore : ∀ m, m.IsCommon → remembered s m t = remembered s m w.files := fun m hm =>
    (remembered_congr hb hp (hagree.mono hstate) hm).symm
  have hgains := Tree.makeDirectories_gains w.files s.statePath
  cases hset : s.store.setUp w.files with
  | mk answer u =>
    rw [show w.files.makeDirectories s.statePath = (answer, u) from hset] at hgains
    have huse : World.InUse s.home (.ready tables) { w with files := u } :=
      hw.withFiles (hgains.agree.mono fun q hq hpass =>
        hstate q (Path.touches_of_passes hpass) hq)
    cases answer with
    | error f =>
      rw [withBackend_of_error hb hset]
      -- what could not be made before cannot be made afterwards
      obtain ⟨hrest, hclosed, -⟩ := closes huse hfits
      obtain ⟨f', hagain⟩ := Tree.makeDirectories_error hset
      have hfailed : ∀ m, m.IsCommon →
          readMarks (remembered s m (World.close { w with files := u })) =
            readMarks (remembered s m t) := by
        intro m hm
        rw [remembered_congr hb hp (hclosed.mono hstate) hm, remembered_setUp_error hb hagain,
          hbefore m hm, remembered_setUp_error hb hset, readMarks_error, readMarks_error]
      exact ⟨⟨_, hrest⟩, fun m hm _ => hfailed m hm⟩
    | ok =>
      rw [withBackend_of_ok hb hset]
      have hisSetUp : s.store.IsSetUp u := Tree.isDirectory_of_makeDirectories hp hset
      obtain ⟨hg, hacc⟩ := pass_account runId decision
        (keeps_flagBackend hisSetUp (fun q hq => ha.not_cache_of_family hne hq) hbelow)
        ⟨⟨tables, huse⟩, .refl _ _, .refl _⟩ hm hc
      obtain ⟨tables', huse'⟩ := hg.inUse
      obtain ⟨hrest, hclosed, hgrows⟩ := closes huse' hfits
      have hisSetUp' := FlagFiles.isSetUp_mono hg.grows hisSetUp
      have hisSetUp'' := FlagFiles.isSetUp_mono hgrows hisSetUp'
      have hafter : ∀ m, m.IsCommon →
          remembered s m (pass o (World.flagBackend s.store) c s now runId decision
            { w with files := u }).2.close =
          (World.flagBackend s.store).reading m (pass o (World.flagBackend s.store) c s now runId
            decision { w with files := u }).2 := by
        intro m hm
        rw [remembered_eq_load hb hisSetUp'']
        refine FlagFiles.load_congr hisSetUp' hisSetUp'' hm (hclosed _ ?_)
        exact (hbelow _ (List.suffix_cons _ _)).1
      refine ⟨⟨_, hrest⟩, hacc.congr hm (fun m hm _ => ?_) fun m hm _ => hafter m hm⟩
      exact (hbefore m hm).trans (remembered_of_setUp hb hset m)

theorem withBackend_account (hm : now.toMonth.IsCommon) (hc : ∀ d, c.ceilingFor d ≠ some 0) :
    let r := withBackend o c s now runId decision w
    (∃ d', r.2.close.Rests s.home d') ∧
      Account now.toMonth (fun m => remembered s m t) (fun m => remembered s m r.2.close) r.1 := by
  by_cases hsqlite : s.backend = "sqlite"
  · exact withBackend_sqlite ha hr hd hreach hfits hw hagree hsqlite hm hc
  by_cases hfile : s.backend = "file"
  · exact withBackend_file ha hr hfits hw hagree hfile hm hc
  · have hrun : withBackend o c s now runId decision w =
        (.failed (.unknownBackend s.backend), w) := by
      rw [withBackend, if_neg hsqlite, if_neg hfile]
    obtain ⟨hrest, hbefore, hafter⟩ := remembered_close ha hr hd hreach hfits hw hagree hfile
      (v := w) ⟨⟨tables, hw⟩, .refl _ _, .refl _⟩
    rw [hrun]
    exact ⟨hrest, fun m _ _ => congrArg readMarks ((hafter m).trans (hbefore m).symm)⟩

end

/-- A run that is due, on its database. -/
theorem withDatabase_account (ha : s.Apart) (hr : t.Rests s.home d) (hm : now.toMonth.IsCommon)
    (hc : ∀ d, c.ceilingFor d ≠ some 0) :
    let r := withDatabase o c s now runId decision t
    (∃ d', r.2.Rests s.home d') ∧
      Account now.toMonth (fun m => remembered s m t) (fun m => remembered s m r.2) r.1 := by
  have hne := home_ne_of_rests hr
  by_cases hreach : World.Reaches t s.database s.home
  · by_cases hfits : World.fits s.home World.journalEnding = true
    · obtain ⟨w, w', tables, hw, hw', hd, huse, hagree⟩ :=
        World.connect_of_reaches ha.named hr hreach hfits
      have hrun : withDatabase o c s now runId decision t =
          ((withBackend o c s now runId decision w').1,
            (withBackend o c s now runId decision w').2.close) := by
        simp only [withDatabase, hw, hw']
      rw [hrun]
      exact withBackend_account ha hr hd hreach hfits huse hagree hm hc
    · -- there is no room for a journal, so nothing is ever written
      have hunfit : World.fits s.home World.journalEnding = false := Bool.not_eq_true _ ▸ hfits
      obtain ⟨w, w', f, hw, hw', hrest, hagree⟩ :=
        World.connect_unfit ha.named hr hreach hunfit
      have hrun : withDatabase o c s now runId decision t = (.ofFailure f, w'.close) := by
        simp only [withDatabase, hw, hw']
      rw [hrun]
      refine ⟨⟨_, hrest⟩, account_ofFailure f fun m hm _ => ?_⟩
      by_cases hfile : s.backend = "file"
      · refine congrArg readMarks (remembered_congr hfile (ha.statePath_ne hne) (hagree.mono ?_) hm)
        rintro q hq rfl
        exact ha.not_state_of_family hne (List.mem_cons_self ..) hq
      · obtain ⟨f₁, h₁⟩ := exists_remembered_error hfile ha hr (fun h => hfits h.2) m
        obtain ⟨f₂, h₂⟩ := exists_remembered_error hfile ha hrest (fun h => hfits h.2) m
        rw [h₁, h₂]
        rfl
  · obtain ⟨f, hf⟩ := World.connect_of_not_reaches ha.named rfl hreach
    have hrun : withDatabase o c s now runId decision t = (.failed (.failed (.database f)), t) := by
      simp only [withDatabase, hf]
    rw [hrun]
    exact ⟨⟨d, hr⟩, fun _ _ _ => rfl⟩

theorem invokeAt_account (runId : String) (ha : s.Apart) (hr : t.Rests s.home d)
    (hm : now.toMonth.IsCommon) :
    let r := invokeAt o s now runId t
    (∃ d', r.2.Rests s.home d') ∧
      Account now.toMonth (fun m => remembered s m t) (fun m => remembered s m r.2) r.1 := by
  unfold invokeAt
  cases hc : Config.load s.dataDir t with
  | error f => exact ⟨⟨d, hr⟩, fun _ _ _ => rfl⟩
  | ok c =>
    cases hdecision : decideRun now c with
    | error v =>
      simp only [hdecision]
      exact ⟨⟨d, hr⟩, fun _ _ _ => rfl⟩
    | ok decision =>
      simp only [hdecision]
      split
      · exact ⟨⟨d, hr⟩, fun _ _ _ => rfl⟩
      · exact withDatabase_account ha hr hm (Config.ceilingFor_ne_zero (Config.validate_of_load hc))

/-- The moment of an invocation, if it is given one that can be read. -/
def moment? (s : Settings) (clock : Moment) : Option Moment :=
  match s.now with
  | none => some clock
  | some text => Moment.parse? text

theorem invoke_eq {clock : Moment} (h : moment? s clock = some now) (runId : String) (t : Tree) :
    invokeTo o s clock runId t = invokeAt o s now runId t := by
  unfold moment? at h
  unfold invokeTo
  cases hgiven : s.now with
  | none =>
    rw [hgiven] at h
    rw [Option.some.inj h]
  | some text =>
    rw [hgiven] at h
    simp only [h]

theorem legible_of_invoke {clock : Moment} (o : Console) (runId : String) (t : Tree)
    (h : moment? s clock = some now) (hy : 0 ≤ now.date.year) :
    ∀ e ∈ (invokeTo o s clock runId t).1.entries, e.Legible := by
  rw [invoke_eq h]
  intro e he
  cases hrep : (invokeAt o s now runId t).1.report? with
  | none =>
    rw [Invocation.entries, hrep] at he
    exact absurd he List.not_mem_nil
  | some rep =>
    rw [Invocation.entries, hrep] at he
    obtain ⟨decision, ⟨b, c, rows, l, l', hrun⟩, -⟩ := concludes_of_report hrep
    exact Planner.legible_of_report hy hrun e he

/-- An invocation ends by no other refusal than one that a stream had in store. -/
theorem refusal_of_invoke {clock : Moment} {r : Refusal}
    (h : (invokeTo o s clock runId t).1.refusal? = some r) :
    o.stdout = some r ∨ o.stderr = some r := by
  have hat : ∀ now, (invokeAt o s now runId t).1.refusal? = some r →
      o.stdout = some r ∨ o.stderr = some r := by
    intro now h
    obtain ⟨rep, hrep⟩ := Invocation.report?_of_refusal? h
    obtain ⟨decision, -, cacheDir, recordedAt, w, hi⟩ := concludes_of_report hrep
    rw [hi] at h
    exact refusal?_conclude h
  unfold invokeTo at h
  split at h
  · exact hat clock h
  · split at h
    · exact nomatch h
    · exact hat _ h

/-- No refusal ends an invocation whose streams take whatever it prints. -/
theorem refusal?_invoke (s : Settings) (clock : Moment) (runId : String) (t : Tree) :
    (invoke s clock runId t).1.refusal? = none := by
  cases h : (invoke s clock runId t).1.refusal? with
  | none => rfl
  | some r => exact (refusal_of_invoke h).elim nofun nofun

end Runner

end OvertimeNotice
