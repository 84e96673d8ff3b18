import Mathlib.Data.List.Pairwise
import OvertimeNotice.Proofs.Plan.News
import OvertimeNotice.Proofs.State.Honest

/-!
# What later runs send again

An entry says whether its mark was written. Over a backend that does as it answers, that tells what
becomes of the entry: one that was written is not sent again, one that was not is sent again by the
next run.

* `Steps.writes`, `Steps.stored_iff`: the calls of a run, and what is stored after them.
* `not_mem_of_stored`: what is stored is not sent.
* `mem_due_of_not_mem`: what was due stays due while it is not sent.
* `run_persisted`: entries tell the truth.
-/

namespace OvertimeNotice

/-- The mark of an entry, and whether it was written. -/
def PlanEntry.written? (e : PlanEntry) : Option (Mark × Bool) :=
  e.mark?.map fun x => (x, e.statePersisted)

/-- Entries of different marks: those of one mark are one. -/
theorem PlanEntry.eq_of_mark?_eq {es : List PlanEntry} {e e' : PlanEntry} {x : Mark}
    (h : (es.filterMap PlanEntry.mark?).Nodup) (he : e ∈ es) (he' : e' ∈ es)
    (hx : e.mark? = some x) (hx' : e'.mark? = some x) : e = e' := by
  let Alone (a a' : PlanEntry) : Prop := a.mark? = some x → a'.mark? = some x → a = a'
  have : Std.Symm Alone := ⟨fun _ _ haa hx hx' => (haa hx' hx).symm⟩
  have halone : es.Pairwise Alone :=
    (List.pairwise_filterMap.mp h).imp fun hne hx hx' => absurd rfl (hne x hx x hx')
  exact halone.forall_of_forall (fun _ _ _ _ => rfl) he he' hx hx'

namespace Planner

variable {σ : Type} {b : Backend σ} {c : Config} {month : Month} {es : List PlanEntry}
  {asked : Prop} {stored : σ → Mark → Prop}

/-! ## The calls of a run -/

theorem writes_loaded (month : Month) (l : Ledger (Recorded σ)) :
    (l.loaded b.recorded month).store.writes = l.store.writes := by
  rw [Ledger.store_loaded]
  split
  · rfl
  · exact (List.filterMap_append).trans (List.append_nil _)

/-- Each entry goes with one attempt to write its mark, in order, and says how that ended. -/
theorem Steps.writes {l l' : Ledger (Recorded σ)}
    (h : Steps b.recorded month l l' es asked) :
    l'.store.writes.map some = l.store.writes.map some ++ es.map PlanEntry.written? := by
  induction h with
  | idle => exact (List.append_nil _).symm
  | looked =>
    rw [writes_loaded]
    exact (List.append_nil _).symm
  | @sent l asked r k e _ hr hk he _ hnew =>
    subst hr
    obtain ⟨hstore, hpersisted⟩ := marked_of_new he hnew
    have hwritten : (Planner.marked b.recorded r k e (l.loaded b.recorded r.month)).1.1.written? =
        some (⟨r.employee, r.month, k⟩, (b.recorded.upsert ⟨r.employee, r.month, k⟩
          (l.loaded b.recorded r.month).store).1.isOk) := by
      rw [PlanEntry.written?, mark?_marked, hk, hpersisted]
      rfl
    rw [List.map_singleton, hwritten, hstore, ← writes_loaded (b := b) r.month l]
    simp only [Recorded.writes, Backend.recorded, List.filterMap_append, List.map_append]
    rfl
  | trans _ _ ih ih₁ => rw [ih₁, ih, List.map_append, List.append_assoc]

/-- What is stored afterwards is what was stored before, and the marks that were written. -/
theorem Steps.stored_iff {l l' : Ledger σ} (hb : b.Honest stored)
    (h : Steps b month l l' es asked) (x : Mark) :
    stored l'.store x ↔
      stored l.store x ∨ ∃ e ∈ es, e.statePersisted = true ∧ e.mark? = some x := by
  have hloaded : ∀ l : Ledger σ, stored (l.loaded b month).store x ↔ stored l.store x := by
    intro l
    rw [Ledger.store_loaded]
    split
    · rfl
    · exact hb.load l.store month x
  induction h with
  | idle => simp
  | looked => simp [hloaded]
  | @sent l asked r k e _ hr hk he _ hnew =>
    subst hr
    obtain ⟨hstore, hpersisted⟩ := marked_of_new he hnew
    rw [hstore, hb.upsert, hloaded]
    simp only [List.mem_singleton, exists_eq_left, hpersisted, mark?_marked, hk, Option.some.injEq,
      eq_comm]
  | trans _ _ ih ih₁ =>
    refine ih₁.trans ((or_congr_left ih).trans ?_)
    simp only [List.mem_append, or_and_right, exists_or, or_assoc]

/-! ## What a run sends -/

/-- What is stored is not sent by a run that loads its month. -/
theorem not_mem_of_stored (hb : b.Honest stored) {q : RunRequest} {l l' : Ledger σ} {rep : Report}
    (hc : l.cached? q.now.toMonth = none) (hl : (b.load q.now.toMonth l.store).1.isOk = true)
    (h : q.on b l = (.ok rep, l')) {x : Mark} (hs : stored l.store x) :
    ∀ e ∈ rep.entries, e.mark? ≠ some x := by
  intro e he hx
  obtain ⟨es, asked, l₁, hsteps, -, hmarks⟩ := steps_of_report h
  have hin : x ∈ rep.entries.filterMap PlanEntry.mark? := List.mem_filterMap.mpr ⟨e, he, hx⟩
  obtain ⟨hmonth, hnot⟩ := hsteps.mark_new x (hmarks ▸ hin)
  exact hnot ((hb.mem_standing hc hl hmonth).mpr hs)

variable {r : OvertimeRecord} {s : Snapshot} {sent sent' : MonthMarks}

/-- An entry that is due by some marks is due by others that do not have its own. -/
theorem mem_due_of_not_mem {p : PlanEntry}
    (h : p ∈ stepEntries c sent r s ++ noticeEntries c sent r s)
    (hnew : ∀ x, p.mark? = some x → (x.employee, x.marker) ∉ sent') :
    p ∈ stepEntries c sent' r s ++ noticeEntries c sent' r s := by
  rcases List.mem_append.mp h with h | h
  · refine List.mem_append_left _ ?_
    unfold stepEntries at h ⊢
    split at h
    · rename_i hdue
      obtain rfl := List.mem_singleton.mp h
      rw [if_pos ⟨hdue.1, hnew _ rfl⟩]
      exact List.mem_singleton_self _
    · exact nomatch h
  · refine List.mem_append_right _ ?_
    unfold noticeEntries at h ⊢
    split at h
    · split at h
      · rename_i hdue
        obtain rfl := List.mem_singleton.mp h
        rw [if_pos ⟨hdue.1, hdue.2.1, hnew _ rfl⟩]
        exact List.mem_singleton_self _
      · exact nomatch h
    · exact nomatch h

/-- A run over the same records sends an entry again if its mark does not stand. -/
theorem mem_entries_of_not_mem {work : List (OvertimeRecord × Snapshot)} {τ : Type}
    {b' : Backend τ} {l : Ledger σ} {l' : Ledger τ} (hw : WorkOf month work) {e : PlanEntry}
    (he : e ∈ (decideAll b c .threshold work l).1.flatMap (·.entries))
    (hnew : ∀ x, e.mark? = some x → (x.employee, x.marker) ∉ l'.standing b' month) :
    ∃ e' ∈ (decideAll b' c .threshold work l').1.flatMap (·.entries), e'.planned = e.planned := by
  obtain ⟨-, hentries, -, -⟩ := decideAll_threshold (b := b) (c := c) (l := l) hw
  obtain ⟨-, hentries', -, -⟩ := decideAll_threshold (b := b') (c := c) (l := l') hw
  have hplanned : e.planned ∈ ((decideAll b c .threshold work l).1.flatMap (·.entries)).map
      PlanEntry.planned := List.mem_map_of_mem he
  rw [hentries, List.mem_flatMap] at hplanned
  obtain ⟨w, hmem, hdue⟩ := hplanned
  refine List.mem_map.mp ?_
  rw [hentries']
  exact List.mem_flatMap.mpr ⟨w, hmem, mem_due_of_not_mem hdue hnew⟩

/-! ## Entries tell the truth -/

/-- After the state `s`, whatever happens to the backend short of a purge of the month, no run that
gets to load the month has an entry with this mark. -/
def Settled (b : Backend σ) (month : Month) (s : σ) (mark? : Option Mark) : Prop :=
  ∀ (calls : List BackendCall) (q : RunRequest) (l l' : Ledger σ) (rep : Report),
    (∀ call ∈ calls, call.Spares month) → l.store = (b.performAll calls s).2 →
      q.now.toMonth = month → l.cached? month = none → (b.load month l.store).1.isOk = true →
        q.on b l = (.ok rep, l') → ∀ e ∈ rep.entries, e.mark? ≠ mark?

theorem settled_of_stored (hb : b.Honest stored) {s : σ} {x : Mark} (hs : stored s x) :
    Settled b x.month s (some x) := by
  intro calls q l l' rep hcalls hl hq hc hload h
  rw [← hq] at hc hload
  exact not_mem_of_stored hb hc hload h (hl ▸ hb.performAll hcalls hs)

/-- **Entries tell whether they are sent again.** Over a backend that does as it answers, a run on
steps newly reached tries once to write the mark of each entry, and the entry says whether that
succeeded. If it did, the mark is not sent again by a run that can load the month. If it did not,
though the month could be loaded, the next run over the same rows has the entry again, as long as
it can load the month. -/
theorem run_persisted {q : RunRequest} {s : σ} {l' : Ledger (Recorded σ)} {rep : Report}
    (hb : b.Honest stored) (hm : q.decision.mode = .threshold)
    (h : q.on b.recorded (.fresh ⟨s, []⟩) = (.ok rep, l')) :
    let month := q.now.toMonth
    let after := l'.store.state
    l'.store.writes.map some = rep.entries.map PlanEntry.written? ∧
      (∀ e ∈ rep.entries, e.statePersisted = true → Settled b month after e.mark?) ∧
      ((b.load month s).1.isOk = true → (b.load month after).1.isOk = true →
        ∀ q' : RunRequest, q'.config = q.config → q'.now = q.now → q'.rows = q.rows →
          q'.decision.mode = .threshold → ∃ rep' l'', q'.on b (.fresh after) = (.ok rep', l'') ∧
            ∀ e ∈ rep.entries, e.statePersisted = false →
              ∃ e' ∈ rep'.entries, e'.planned = e.planned) := by
  intro month after
  obtain ⟨work, hev, hrep, hl⟩ := run_eq_ok h
  rw [hm] at hrep hl
  obtain ⟨-, -, -, hsteps⟩ := decideAll_threshold (b := b.recorded) (c := q.config)
    (l := .fresh ⟨s, []⟩) hev.workOf
  have hentries : rep.entries = (decideAll b.recorded q.config .threshold work
    (.fresh ⟨s, []⟩)).1.flatMap (·.entries) := by rw [hrep, report]
  have hstore : l'.store =
      (decideAll b.recorded q.config .threshold work (.fresh ⟨s, []⟩)).2.store := by
    rw [hl]
    rfl
  rw [← hentries] at hsteps
  have hstored : ∀ x, stored after x ↔
      stored s x ∨ ∃ e ∈ rep.entries, e.statePersisted = true ∧ e.mark? = some x := by
    simp only [after, hstore]
    exact hsteps.stored_iff hb.recorded
  refine ⟨hstore ▸ hsteps.writes, fun e he hp => ?_, fun hload hload' q' hc hn hr hm' => ?_⟩
  · obtain ⟨x, hx⟩ := Option.isSome_iff_exists.mp (hsteps.isSome_mark? e he)
    obtain ⟨hmonth, -⟩ := hsteps.mark_new x (List.mem_filterMap.mpr ⟨e, he, hx⟩)
    rw [hx, show month = x.month from hmonth.symm]
    exact settled_of_stored hb ((hstored x).mpr (.inr ⟨e, he, hp, hx⟩))
  · rw [RunRequest.on, hc, hn, hr]
    refine ⟨_, _, run_of_evaluated hev q'.runId q'.decision _, fun e he hp => ?_⟩
    rw [hm']
    rw [hentries] at he
    refine mem_entries_of_not_mem hev.workOf he fun x hx hin => ?_
    rw [← hentries] at he
    obtain ⟨hmonth, hnot⟩ := hsteps.mark_new x (List.mem_filterMap.mpr ⟨e, he, hx⟩)
    -- the mark was not stored before, and its only entry was not written
    rcases (hstored x).mp ((hb.mem_standing rfl hload' hmonth).mp hin) with hs | ⟨e', he', hp', hx'⟩
    · have hfirst := hb.recorded.mem_standing (l := .fresh ⟨s, []⟩) rfl hload hmonth
      exact hnot (hfirst.mpr hs)
    · rw [PlanEntry.eq_of_mark?_eq hsteps.nodup_marks he he' hx hx', hp'] at hp
      cases hp

/-- Marks in memory, where those of direct notices cannot be recorded. -/
private def faltering : Backend MemoryMarks :=
  { Backend.memory with
    upsert := fun e s =>
      if e.marker = .selfEscalation then (.error (.corruptState "disk full"), s)
      else Backend.memory.upsert e s }

private theorem honest_faltering : faltering.Honest fun s x => x ∈ s.marks :=
  { Backend.memory_honest with
    upsert_ok := fun {s e} h x => by
      simp only [faltering] at h ⊢
      split at h
      · exact nomatch h
      · rw [if_neg ‹_›]
        exact Backend.memory_honest.upsert_ok h x
    upsert_error := fun {s e f} h x => by
      simp only [faltering] at h ⊢
      split at h
      · rw [if_pos ‹_›]
      · rw [if_neg ‹_›]
        exact Backend.memory_honest.upsert_error h x }

private def atCeiling : RunRequest := .trial 600 600 .threshold

/-- The step is recorded, direct notice is not and is sent again. -/
theorem run_persisted_memory :
    ∃ rep l', atCeiling.on faltering.recorded (.fresh ⟨.empty, []⟩) = (.ok rep, l') ∧
      l'.store.writes.map some =
        [some (⟨"1001", atCeiling.now.toMonth, .level .p100⟩, true),
          some (⟨"1001", atCeiling.now.toMonth, .selfEscalation⟩, false)] ∧
      ∃ rep' l'', atCeiling.on faltering (.fresh l'.store.state) = (.ok rep', l'') ∧
        ∃ e ∈ rep'.entries, e.kind = .selfEscalation := by
  let month := atCeiling.now.toMonth
  let written : Option (Mark × Bool) := some (⟨"1001", month, .level .p100⟩, true)
  let failed : Option (Mark × Bool) := some (⟨"1001", month, .selfEscalation⟩, false)
  have hrun : (atCeiling.on faltering.recorded (.fresh ⟨.empty, []⟩)).1.map (fun rep =>
        rep.entries.map fun e => (e.written?, e.kind)) =
          .ok [(written, .ordinary), (failed, .selfEscalation)] ∧
      (atCeiling.on faltering.recorded (.fresh ⟨.empty, []⟩)).2.store.state.failRead = false := by
    decide +kernel
  cases h : atCeiling.on faltering.recorded (.fresh ⟨.empty, []⟩) with
  | mk r l' =>
    cases r with
    | error f => rw [h] at hrun; exact nomatch hrun.1
    | ok rep =>
      rw [h] at hrun
      have hentries : rep.entries.map (fun e => (e.written?, e.kind)) =
          [(written, .ordinary), (failed, .selfEscalation)] := Except.ok.inj hrun.1
      have hread : l'.store.state.failRead = false := hrun.2
      obtain ⟨hwrites, -, hagain⟩ := run_persisted honest_faltering rfl h
      have hload : (faltering.load atCeiling.now.toMonth l'.store.state).1.isOk = true := by
        simp only [faltering, Backend.memory, hread]
        rfl
      obtain ⟨rep', l'', hrun', hsent⟩ := hagain rfl hload atCeiling rfl rfl rfl rfl
      have hall : rep.entries.map PlanEntry.written? = [written, failed] := by
        have hfst := congrArg (List.map Prod.fst) hentries
        rwa [List.map_map] at hfst
      have hnotice : (failed, EntryKind.selfEscalation) ∈
          rep.entries.map fun e => (e.written?, e.kind) := by
        rw [hentries]
        simp
      obtain ⟨e, he, hw⟩ := List.mem_map.mp hnotice
      obtain ⟨hfailed, hkind⟩ := Prod.mk.inj hw
      have hp : e.statePersisted = false := by
        obtain ⟨x, -, hx⟩ := Option.map_eq_some_iff.mp hfailed
        exact (Prod.mk.inj hx).2
      obtain ⟨e', he', hplanned⟩ := hsent e he hp
      exact ⟨rep, l', rfl, hwrites.trans hall, rep', l'', hrun', e', he',
        (congrArg PlanEntry.kind hplanned).trans hkind⟩

end Planner

end OvertimeNotice
