import OvertimeNotice.Proofs.Plan.Threshold
import OvertimeNotice.Proofs.State.Durable

/-!
# What a run leaves in its backend

The entries of a run say themselves whether their marks were written, and the backend then holds
exactly those besides what it held before.

* `Adds`: what months read as afterwards, by way of the entries.
* `Steps.adds`: that is what becomes of the state behind a ledger.
* `run_adds`, `run_error`: a run with a report, and one without.
-/

namespace OvertimeNotice

namespace Planner

/-- What the months of a backend read as. -/
abbrev Reading := Month → Except Failure (List Mark)

/-- Of a month, `after` holds what `before` does and the marks of the entries that were written; of
later months it holds the same. -/
structure Adds (month : Month) (es : List PlanEntry) (before after : Reading) : Prop where
  later : ∀ m, m.IsCommon → month < m → after m = before m
  marks : ∀ x, x ∈ readMarks (after month) ↔ x ∈ readMarks (before month) ∨
    ∃ e ∈ es, e.statePersisted = true ∧ e.mark? = some x
  unwritten : (∀ e ∈ es, e.statePersisted = false ∨ e.mark? = none) → after month = before month
  written : (∃ e ∈ es, e.statePersisted = true ∧ e.mark?.isSome = true) →
    (after month).isOk = true

section

variable {month : Month} {es es' : List PlanEntry} {before after between before' after' : Reading}

/-- Nothing was written, and nothing has changed. -/
theorem Adds.of_eq (h : ∀ m, m.IsCommon → month ≤ m → after m = before m) (hm : month.IsCommon)
    (hes : ∀ e ∈ es, e.statePersisted = false ∨ e.mark? = none) : Adds month es before after := by
  have hnone : ¬∃ e ∈ es, e.statePersisted = true ∧ e.mark?.isSome = true := by
    rintro ⟨e, he, hp, hk⟩
    rcases hes e he with hp' | hk'
    · rw [hp'] at hp
      exact nomatch hp
    · rw [hk'] at hk
      exact nomatch hk
  have heq : after month = before month := h _ hm (Int.le_refl _)
  refine ⟨fun m hm hlt => h m hm (Int.le_of_lt hlt), fun x => ?_, fun _ => heq,
    fun hw => absurd hw hnone⟩
  rw [heq]
  refine (or_iff_left ?_).symm
  rintro ⟨e, he, hp, hk⟩
  exact hnone ⟨e, he, hp, by rw [hk]; rfl⟩

theorem Adds.trans (h : Adds month es before between) (h' : Adds month es' between after) :
    Adds month (es ++ es') before after := by
  refine ⟨fun m hm hlt => (h'.later m hm hlt).trans (h.later m hm hlt), fun x => ?_,
    fun hn => ?_, ?_⟩
  · rw [h'.marks, h.marks, or_assoc]
    simp only [List.mem_append, or_and_right, exists_or]
  · have hes := h.unwritten fun e he => hn e (List.mem_append_left _ he)
    exact (h'.unwritten fun e he => hn e (List.mem_append_right _ he)).trans hes
  · rintro ⟨e, he, hp, hk⟩
    by_cases hlater : ∃ e ∈ es', e.statePersisted = true ∧ e.mark?.isSome = true
    · exact h'.written hlater
    · have hquiet : ∀ e ∈ es', e.statePersisted = false ∨ e.mark? = none := by
        intro e he
        rw [← Bool.not_eq_true, ← Option.not_isSome_iff_eq_none, ← not_and_or]
        exact fun hw => hlater ⟨e, he, hw⟩
      rw [h'.unwritten hquiet]
      refine h.written ⟨e, (List.mem_append.mp he).resolve_right fun he => ?_, hp, hk⟩
      exact hlater ⟨e, he, hp, hk⟩

/-- Only the month and those after it matter. -/
theorem Adds.congr (h : Adds month es before after) (hm : month.IsCommon)
    (hb : ∀ m, m.IsCommon → month ≤ m → before' m = before m)
    (ha : ∀ m, m.IsCommon → month ≤ m → after' m = after m) : Adds month es before' after' := by
  have hb' : before' month = before month := hb _ hm (Int.le_refl _)
  have ha' : after' month = after month := ha _ hm (Int.le_refl _)
  refine ⟨fun m hm hlt => ?_, ?_, ?_, ?_⟩
  · rw [ha m hm (Int.le_of_lt hlt), hb m hm (Int.le_of_lt hlt), h.later m hm hlt]
  · rw [ha', hb']
    exact h.marks
  · rw [ha', hb']
    exact h.unwritten
  · rw [ha']
    exact h.written

end

variable {σ : Type} {b : Backend σ} {good : σ → Prop} {c : Config} {month : Month}
  {es : List PlanEntry}

/-! ## The steps of a run -/

theorem store_loaded_durable (month : Month) (hb : b.Durable good) {l : Ledger σ}
    (hg : good l.store) :
    good (l.loaded b month).store ∧
      ∀ m, b.reading m (l.loaded b month).store = b.reading m l.store := by
  rw [Ledger.store_loaded]
  split
  · exact ⟨hg, fun _ => rfl⟩
  · exact hb.load month hg

/-- A mark that is new to the ledger is written, or at least that is tried, and its entry says
which. -/
theorem marked_of_new {r : OvertimeRecord} {k : Marker} {e : PlanEntry} {l : Ledger σ}
    (he : e.statePersisted = true) (hnew : (r.employee, k) ∉ l.standing b r.month) :
    let m := marked b r k e (l.loaded b r.month)
    let u := b.upsert { employee := r.employee, month := r.month, marker := k }
      (l.loaded b r.month).store
    m.2.store = u.2 ∧ m.1.1.statePersisted = u.1.isOk := by
  have hmark : (l.loaded b r.month).markNotified b r.employee r.month k =
      let kept := ((l.loaded b r.month).loaded b r.month).setMarks r.month
        ((r.employee, k) :: (l.loaded b r.month).standing b r.month)
      let w := b.upsert { employee := r.employee, month := r.month, marker := k }
        ((l.loaded b r.month).loaded b r.month).store
      (w.1, { kept with store := w.2 }) :=
    Ledger.markNotified_of_not_mem (by rwa [Ledger.standing_loaded])
  rw [Ledger.loaded_of_cached (l := l.loaded b r.month) Ledger.cached?_loaded] at hmark
  intro m u
  constructor
  · rw [marked_ledger, hmark]
  · rw [marked_statePersisted he, hmark]

theorem Steps.adds {l l' : Ledger σ} {asked : Prop} (hb : b.Durable good)
    (hm : month.IsCommon) (h : Steps b month l l' es asked) (hg : good l.store) :
    good l'.store ∧
      Adds month es (fun m => b.reading m l.store) fun m => b.reading m l'.store := by
  induction h with
  | idle => exact ⟨hg, .of_eq (fun _ _ _ => rfl) hm (by simp)⟩
  | looked =>
    obtain ⟨hg', hr⟩ := store_loaded_durable month hb hg
    exact ⟨hg', .of_eq (fun m _ _ => hr m) hm (by simp)⟩
  | trans _ _ ih ih₁ =>
    obtain ⟨hg', ha⟩ := ih hg
    obtain ⟨hg'', ha'⟩ := ih₁ hg'
    exact ⟨hg'', ha.trans ha'⟩
  | @sent l asked r k e h hr hk he hn hnew =>
    subst hr
    obtain ⟨hg', hsame⟩ := store_loaded_durable r.month hb hg
    let m : Mark := { employee := r.employee, month := r.month, marker := k }
    obtain ⟨hstore, hpersisted⟩ := marked_of_new (b := b) he hnew
    have hmark? : (marked b r k e (l.loaded b r.month)).1.1.mark? = some m := by
      rw [mark?_marked, hk]
    rw [hstore]
    cases hu : (b.upsert m (l.loaded b r.month).store).1 with
    | error f =>
      obtain ⟨hg₁, hr₁⟩ := hb.upsert_error hg' hm hu
      refine ⟨hg₁, .of_eq (fun n hn _ => (hr₁ n hn).trans (hsame n)) hm fun e he => .inl ?_⟩
      rw [List.mem_singleton.mp he, hpersisted, hu]
      rfl
    | ok =>
      obtain ⟨hg₁, hothers, es, hes, hmem⟩ := hb.upsert_ok hg' hm hn hu
      have hok : (marked b r k e (l.loaded b r.month)).1.1.statePersisted = true := by
        rw [hpersisted, hu]
        rfl
      refine ⟨hg₁, fun n hn hlt => ?_, fun x => ?_, fun hall => ?_, fun _ => by rw [hes]; rfl⟩
      · have hne : n ≠ r.month := by
          rintro rfl
          exact Int.lt_irrefl _ hlt
        exact (hothers n hn hne).trans (hsame n)
      · rw [hes, readMarks_ok, hmem, hsame, or_comm]
        refine or_congr Iff.rfl ⟨?_, ?_⟩
        · rintro rfl
          exact ⟨_, List.mem_singleton_self _, hok, hmark?⟩
        · rintro ⟨e, he, -, hk⟩
          rw [List.mem_singleton.mp he, hmark?] at hk
          exact (Option.some.inj hk).symm
      · rcases hall _ (List.mem_singleton_self _) with h | h
        · rw [hok] at h
          exact nomatch h
        · rw [hmark?] at h
          exact nomatch h

/-! ## Whole runs -/

/-- A run on everyone asks the ledger nothing, and none of its entries has a mark. -/
theorem decideAll_forced (work : List (OvertimeRecord × Snapshot)) (l : Ledger σ) :
    let d := decideAll b c .forced work l
    d.2 = l ∧ ∀ e ∈ d.1.flatMap (·.entries), e.kind = .forced := by
  induction work generalizing l with
  | nil => exact ⟨rfl, by simp [decideAll]⟩
  | cons w ws ih =>
    obtain ⟨hl, hes⟩ := ih l
    refine ⟨hl, fun e he => ?_⟩
    rw [decideAll, List.flatMap_cons, List.mem_append] at he
    rcases he with he | he
    · rw [List.mem_singleton.mp he]
      rfl
    · exact hes e he

theorem mark?_of_forced {e : PlanEntry} (h : e.kind = .forced) : e.mark? = none := by
  rw [PlanEntry.mark?, PlanEntry.marker?, h]
  rfl

/-- What a run with a report leaves behind, whatever it was on. -/
theorem run_adds {runId : String} {now : Moment} {decision : RunDecision} {rows : List RawRow}
    {l l' : Ledger σ} {rep : Report} (hb : b.Durable good) (hg : good l.store)
    (hm : now.toMonth.IsCommon) (h : run b c runId now decision rows l = (.ok rep, l')) :
    good l'.store ∧ Adds now.toMonth rep.entries (fun m => b.reading m l.store)
      fun m => b.reading m l'.store := by
  obtain ⟨work, hev, rfl, rfl⟩ := run_eq_ok h
  cases hmode : decision.mode with
  | threshold =>
    obtain ⟨-, -, -, hsteps⟩ := decideAll_threshold (b := b) (c := c) (l := l) hev.workOf
    have hadds := hsteps.adds hb hm hg
    exact hadds
  | forced =>
    obtain ⟨hl, hes⟩ := decideAll_forced (b := b) (c := c) work l
    have hstore : (decideAll b c .forced work l).2.drain.2.store = l.store := by
      rw [hl]
      rfl
    rw [hstore]
    exact ⟨hg, .of_eq (fun _ _ _ => rfl) hm fun e he => .inr (mark?_of_forced (hes e he))⟩

/-- A run without a report stops before it looks at anyone, if no ceiling is zero. -/
theorem run_error {runId : String} {now : Moment} {decision : RunDecision} {rows : List RawRow}
    {l l' : Ledger σ} {f : Failure} (hc : ∀ d, c.ceilingFor d ≠ some 0)
    (h : run b c runId now decision rows l = (.error f, l')) : l' = l := by
  cases hw : withCeilings c (intake now.toMonth rows).records with
  | error f' =>
    rw [run_of_refused hw] at h
    exact (congrArg Prod.snd h).symm
  | ok ws =>
    obtain ⟨rep, l₁, hrun⟩ :=
      exists_report (b := b) hc hw runId decision l
    rw [hrun] at h
    cases h

end Planner

end OvertimeNotice
