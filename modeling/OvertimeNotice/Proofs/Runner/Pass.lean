import OvertimeNotice.Proofs.Plan.News
import OvertimeNotice.Proofs.Runner.Archive
import OvertimeNotice.Proofs.Runner.Emitted

/-!
# A run over a backend

Whatever becomes of a run, its backend then holds what it held and the marks that were written, and
nothing at all is written but by a run that comes to a report. What the streams take of what it
prints has no bearing on the marks.

* `World.durable_flagBackend`: as a backend, a store of flag files whose directory is there loses
  nothing.
* `Runner.Keeps`: a backend that only marks have to do with; `keeps_backend`, `keeps_flagBackend`.
* `Runner.conclude_keeps`: no mark changes once there is a report.
* `Runner.Account`: how an invocation ended, beside what months read as before and after it.
* `Runner.pass_account`: a run over such a backend.
-/

namespace OvertimeNotice

/-! ## Flag files -/

namespace World

variable {home : Place} {K : Place → Prop} {t : Tree} {s : FlagFiles}

/-- A store whose directory is there loses nothing. -/
theorem durable_flagBackend (hs : s.IsSetUp t) (hK : ∀ name, K (name :: s.place))
    (hhome : ∀ q ∈ home.family, ¬K q) : (flagBackend s).Durable (Serves home K t) where
  load _ hw := ⟨hw, fun _ => rfl⟩
  purge {w month} hw _ := by
    have hset := FlagFiles.isSetUp_mono hw.grows hs
    obtain ⟨ha, hg⟩ := s.purge_kept month w.files
    refine ⟨hw.withFiles hhome (ha.mono fun q hq hstale => hq ?_) hg, fun m hm hle => ?_⟩
    · obtain ⟨name, -, -, -, rfl⟩ := hstale
      exact hK name
    · exact FlagFiles.load_purge hset hm hle
  upsert_error {w e f} hw he hu := by
    have hset := FlagFiles.isSetUp_mono hw.grows hs
    obtain ⟨ha, hg⟩ := FlagFiles.upsert_kept hset he
    refine ⟨hw.withFiles hhome (ha.mono fun q hq hwritten => hq ?_) hg, fun m hm => ?_⟩
    · rcases hwritten with rfl | rfl <;> exact hK _
    · exact FlagFiles.load_upsert_error hset he hm hu
  upsert_ok {w e} hw he hn hu := by
    have hset := FlagFiles.isSetUp_mono hw.grows hs
    obtain ⟨ha, hg⟩ := FlagFiles.upsert_kept hset he
    refine ⟨hw.withFiles hhome (ha.mono fun q hq hwritten => hq ?_) hg, fun m hm hne => ?_, ?_⟩
    · rcases hwritten with rfl | rfl <;> exact hK _
    · exact FlagFiles.load_upsert_of_ne hset he hm hne
    · exact FlagFiles.load_upsert_ok hset he hn hu

end World

namespace Runner

open Planner

/-- No call loses a mark, and what a run does besides changes no month. -/
structure Keeps (b : Backend World) (good : World → Prop) (cacheDir : String) : Prop where
  durable : b.Durable good
  insertRun : ∀ {w : World} (row : RunRow), good w →
    good (World.call (World.update fun d => d.insertRun row) w).2 ∧ ∀ m, m.IsCommon →
      b.reading m (World.call (World.update fun d => d.insertRun row) w).2 = b.reading m w
  archive : ∀ {w : World} (report : Report) (recordedAt : String), good w →
    good (World.archive report cacheDir recordedAt w).2 ∧ ∀ m, m.IsCommon →
      b.reading m (World.archive report cacheDir recordedAt w).2 = b.reading m w

/-! ## The two backends -/

section

variable {home : Place} {t : Tree} {w v : World} {cacheDir : String} {K : Place → Prop}

theorem reading_of_besides (h : World.Besides home K w v) (month : Month) :
    World.backend.reading month v = World.backend.reading month w := by
  obtain ⟨tables, tables', hw, hv, hmarks⟩ := h.inUse
  have hsame : tables'.marksOf month = tables.marksOf month :=
    Tables.marksOf_congr (by rw [hmarks])
  rw [hw.reading, hv.reading, hsame]

/-- The marks in the tables have to do with nothing else. -/
theorem keeps_backend (hhome : ∀ q ∈ home.family, ¬(Path.ofText cacheDir).Touches q) :
    Keeps World.backend (World.Serves home (Path.ofText cacheDir).Touches t) cacheDir where
  durable := World.durable_backend home _ t
  insertRun row hw := by
    obtain ⟨tables, h⟩ := hw.inUse
    have hb := World.besides_insertRun (Path.ofText cacheDir).Touches row h
    exact ⟨hb.serves hw, fun m _ => reading_of_besides hb m⟩
  archive report recordedAt hw := by
    obtain ⟨tables, h⟩ := hw.inUse
    have hb := World.besides_archive report cacheDir recordedAt (fun _ h => h) hhome h
    exact ⟨hb.serves hw, fun m _ => reading_of_besides hb m⟩

/-- The marks in flag files have to do with nothing outside their directory. -/
theorem keeps_flagBackend {s : FlagFiles} (hs : s.IsSetUp t)
    (hcache : ∀ q ∈ home.family, ¬(Path.ofText cacheDir).Touches q)
    (hbelow : ∀ q, s.place <:+ q → q ∉ home.family ∧ ¬(Path.ofText cacheDir).Touches q) :
    Keeps (World.flagBackend s)
      (World.Serves home (fun q => (Path.ofText cacheDir).Touches q ∨ s.place <:+ q) t)
      cacheDir := by
  have hhome : ∀ q ∈ home.family, ¬((Path.ofText cacheDir).Touches q ∨ s.place <:+ q) := by
    rintro q hq (hc | hb)
    · exact hcache q hq hc
    · exact (hbelow q hb).1 hq
  have hkept : ∀ {w v : World}, World.Serves home
      (fun q => (Path.ofText cacheDir).Touches q ∨ s.place <:+ q) t w →
      World.Besides home (Path.ofText cacheDir).Touches w v →
      World.Serves home (fun q => (Path.ofText cacheDir).Touches q ∨ s.place <:+ q) t v ∧
        ∀ m, m.IsCommon →
          (World.flagBackend s).reading m v = (World.flagBackend s).reading m w := by
    intro w v hw hb
    have hset := FlagFiles.isSetUp_mono hw.grows hs
    refine ⟨World.Besides.serves ⟨hb.inUse, hb.agree.mono fun q hq => ⟨hq.1, fun hc =>
      hq.2 (.inl hc)⟩, hb.grows⟩ hw, fun m hm => ?_⟩
    exact FlagFiles.load_congr hset (FlagFiles.isSetUp_mono hb.grows hset) hm
      (hb.agree _ (hbelow _ (List.suffix_cons _ _)))
  refine ⟨World.durable_flagBackend hs (fun name => .inr (List.suffix_cons _ _)) hhome, ?_, ?_⟩
  · intro w row hw
    obtain ⟨tables, h⟩ := hw.inUse
    exact hkept hw (World.besides_insertRun _ row h)
  · intro w report recordedAt hw
    obtain ⟨tables, h⟩ := hw.inUse
    exact hkept hw (World.besides_archive report cacheDir recordedAt (fun _ h => h) hcache h)

end

/-! ## The run -/

/-- What months read as `before` and `after` an invocation that ended so: if it came to a report,
the marks that its entries say were written are there besides, and the report brings news; if it
did not, the marks are the same. -/
def Account (month : Month) (before after : Reading) (i : Invocation) : Prop :=
  match i.report? with
  | some rep => Adds month rep.entries before after ∧ News month (readMarks (before month)) rep
  | none => ∀ m, m.IsCommon → month ≤ m → readMarks (after m) = readMarks (before m)

theorem account_of_report {month : Month} {before after : Reading} {i : Invocation} {rep : Report}
    (h : i.report? = some rep) : Account month before after i ↔
      Adds month rep.entries before after ∧ News month (readMarks (before month)) rep := by
  rw [Account, h]

theorem account_of_no_report {month : Month} {before after : Reading} {i : Invocation}
    (h : i.report? = none) : Account month before after i ↔
      ∀ m, m.IsCommon → month ≤ m → readMarks (after m) = readMarks (before m) := by
  rw [Account, h]

theorem account_ofFailure {month : Month} {before after : Reading} (f : Failure)
    (h : ∀ m, m.IsCommon → month ≤ m → readMarks (after m) = readMarks (before m)) :
    Account month before after (.ofFailure f) := by
  cases f <;> exact h

theorem account_ofFetchFailure {month : Month} {before after : Reading} (f : Failure)
    (h : ∀ m, m.IsCommon → month ≤ m → readMarks (after m) = readMarks (before m)) :
    Account month before after (.ofFetchFailure month f) := by
  cases f <;> exact h

/-- Only the month and those after it matter. -/
theorem Account.congr {month : Month} {before after before' after' : Reading} {i : Invocation}
    (h : Account month before after i) (hm : month.IsCommon)
    (hb : ∀ m, m.IsCommon → month ≤ m → before' m = before m)
    (ha : ∀ m, m.IsCommon → month ≤ m → after' m = after m) : Account month before' after' i := by
  cases hrep : i.report? with
  | some rep =>
    rw [account_of_report hrep] at h ⊢
    obtain ⟨hadds, hnews⟩ := h
    refine ⟨hadds.congr hm hb ha, ?_⟩
    rw [hb month hm (Int.le_refl _)]
    exact hnews
  | none =>
    rw [account_of_no_report hrep] at h ⊢
    intro m hm hle
    rw [ha m hm hle, hb m hm hle, h m hm hle]

variable {o : Console} {b : Backend World} {good : World → Prop} {c : Config} {s : Settings}
  {now : Moment} {w : World}

/-- A new ledger stands where its backend does. -/
theorem mem_standing_fresh (month : Month) (w : World) (p : String × Marker) :
    p ∈ (Ledger.fresh w).standing b month ↔
      ⟨p.1, month, p.2⟩ ∈ readMarks (b.reading month w) := by
  have hcached : (Ledger.fresh w).cached? month = none := rfl
  have hreading : (b.load month (Ledger.fresh w).store).1 = b.reading month w := rfl
  simp only [Ledger.standing, hcached, hreading]
  cases b.reading month w with
  | ok entries => exact Ledger.mem_marksOf
  | error f => simp

/-- Whether the plan goes out or not, its marks are there by then, and they stay. -/
theorem conclude_keeps {cacheDir : String} (o : Console) (rep : Report) (recordedAt : String)
    (hk : Keeps b good cacheDir) (hg : good w) :
    good (conclude o rep cacheDir recordedAt w).2 ∧
      ∀ m, m.IsCommon → b.reading m (conclude o rep cacheDir recordedAt w).2 = b.reading m w := by
  have harchive := hk.archive rep recordedAt hg
  unfold conclude
  split
  · exact ⟨hg, fun _ _ => rfl⟩
  · split
    · exact ⟨hg, fun _ _ => rfl⟩
    · dsimp only
      split <;> exact harchive

theorem plan_account (runId : String) (decision : RunDecision) (rows : List RawRow)
    (hk : Keeps b good s.cacheDir) (hg : good w) (hm : now.toMonth.IsCommon)
    (hc : ∀ d, c.ceilingFor d ≠ some 0) :
    good (plan o b c s now runId decision rows (Ledger.fresh w)).2 ∧
      Account now.toMonth (fun m => b.reading m w)
        (fun m => b.reading m (plan o b c s now runId decision rows (Ledger.fresh w)).2)
        (plan o b c s now runId decision rows (Ledger.fresh w)).1 := by
  unfold plan
  let row : RunRow :=
    { id := runId, month := now.toMonth.text, mode := decision.mode.name, startedAt := now.text
      version }
  obtain ⟨hg₁, hr₁⟩ := hk.insertRun row hg
  cases hrow : World.call (World.update fun d => d.insertRun row) w with
  | mk answer w₁ =>
    rw [hrow] at hg₁ hr₁
    simp only [Ledger.fresh, row] at hrow ⊢
    rw [hrow]
    cases answer with
    | error f =>
      exact ⟨hg₁, account_ofFailure f fun m hm _ => congrArg readMarks (hr₁ m hm)⟩
    | ok =>
      cases hrun : Planner.run b c runId now decision rows (Ledger.fresh w₁) with
      | mk answer l =>
        simp only [Ledger.fresh] at hrun
        simp only [hrun]
        cases answer with
        | error f =>
          have hl : l = Ledger.fresh w₁ := run_error hc hrun
          subst hl
          exact ⟨hg₁, account_ofFailure f fun m hm _ => congrArg readMarks (hr₁ m hm)⟩
        | ok report =>
          obtain ⟨hg₂, hadds⟩ := run_adds hk.durable hg₁ hm hrun
          obtain ⟨hg₃, hr₃⟩ := conclude_keeps o report now.minuteText hk hg₂
          refine ⟨hg₃, (account_of_report (report?_conclude ..)).mpr ⟨?_, ?_⟩⟩
          · exact hadds.congr hm (fun m hm _ => (hr₁ m hm).symm) fun m hm _ => hr₃ m hm
          · refine run_news (fun p => ?_) hrun
            have hp := mem_standing_fresh (b := b) now.toMonth w₁ p
            rw [hr₁ _ hm] at hp
            exact hp

theorem reset_fresh (month : Month) (w : World) :
    ((Ledger.fresh w).reset b month).2 = .fresh (b.purge month w).2 := rfl

theorem store_fresh (w : World) : (Ledger.fresh w).store = w := rfl

theorem pass_of_error {runId : String} {decision : RunDecision} {f : Failure}
    (h : Export.fetch s.dataDir now.toMonth (b.purge now.toMonth w).2.files = .error f) :
    pass o b c s now runId decision w =
      (.ofFetchFailure now.toMonth f, (b.purge now.toMonth w).2) := by
  simp only [pass, reset_fresh, store_fresh, h]

theorem pass_of_ok {runId : String} {decision : RunDecision} {rows : List RawRow}
    (h : Export.fetch s.dataDir now.toMonth (b.purge now.toMonth w).2.files = .ok rows) :
    pass o b c s now runId decision w =
      plan o b c s now runId decision rows (.fresh (b.purge now.toMonth w).2) := by
  simp only [pass, reset_fresh, store_fresh, h]

/-- A run over a backend writes nothing but the marks of its entries. -/
theorem pass_account (runId : String) (decision : RunDecision) (hk : Keeps b good s.cacheDir)
    (hg : good w) (hm : now.toMonth.IsCommon) (hc : ∀ d, c.ceilingFor d ≠ some 0) :
    good (pass o b c s now runId decision w).2 ∧
      Account now.toMonth (fun m => b.reading m w)
        (fun m => b.reading m (pass o b c s now runId decision w).2)
        (pass o b c s now runId decision w).1 := by
  obtain ⟨hg₁, hr₁⟩ := hk.durable.purge hg hm
  cases hf : Export.fetch s.dataDir now.toMonth (b.purge now.toMonth w).2.files with
  | error f =>
    rw [pass_of_error hf]
    exact ⟨hg₁, account_ofFetchFailure f fun m hm hle => congrArg readMarks (hr₁ m hm hle)⟩
  | ok rows =>
    rw [pass_of_ok hf]
    obtain ⟨hg₂, ha⟩ := plan_account runId decision rows hk hg₁ hm hc
    exact ⟨hg₂, ha.congr hm (fun m hm hle => (hr₁ m hm hle).symm) fun _ _ _ => rfl⟩

end Runner

end OvertimeNotice
