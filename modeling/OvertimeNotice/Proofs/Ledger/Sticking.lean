import OvertimeNotice.Proofs.Ledger.Keeping
import OvertimeNotice.Proofs.State.Calls

/-!
# Marks that stick and calls that are made once

Whatever a backend answers, a month that a ledger was asked about is kept from then on, and so is a
mark. So while no call asks to forget the month, it is loaded once and the mark is written once, and
there is one warning at most that the month could not be loaded. Warnings are handed out in the
order in which they were raised, all of them and each of them once.

* `Ledger.Once`: a call to the backend that is made only as long as something is not done.
* `Ledger.Logged`: what a backend is asked, and the warnings that come of it.
* `Ledger.marks_stick`: what calls in any order make of a month, of a mark and of the warnings.
-/

namespace OvertimeNotice

/-- The month that could not be loaded. -/
def Warning.unread? : Warning → Option Month
  | stateReadFailed month _ => some month
  | _ => none

/-- The warnings that an answer hands out. -/
def LedgerAnswer.handed : LedgerAnswer → List Warning
  | drained warnings => warnings
  | _ => []

/-- Each of these warnings comes of a call to load the month. -/
theorem BackendEvent.count_unread_le (events : List BackendEvent) (month : Month) :
    ((events.filterMap readWarning?).filterMap Warning.unread?).count month ≤
      (events.map call).count (.load month) := by
  induction events with
  | nil => exact Nat.le_refl 0
  | cons v events ih =>
    rcases v with ⟨m, f | es⟩ | e | m
    case load.error =>
      show (m :: (events.filterMap readWarning?).filterMap Warning.unread?).count month ≤
        (.load m :: events.map call).count (.load month)
      rw [List.count_cons, List.count_cons]
      by_cases hm : m = month
      · subst hm
        simpa using ih
      · simpa [hm] using ih
    all_goals exact Nat.le_trans ih List.count_le_count_cons

namespace Ledger

variable {σ : Type} {b : Backend σ} {l l' l'' : Ledger (Recorded σ)} {month m : Month} {e : Mark}
  {events events' : List BackendEvent} {ws ws' : List Warning}

/-! ## Calls that are made once -/

/-- Between two ledgers a call is made at most once, and only if something is done afterwards that
was not done before. -/
def Once (x : BackendCall) (done : Ledger (Recorded σ) → Bool) (l l' : Ledger (Recorded σ)) :
    Prop :=
  l'.store.calls.count x + (done l).toNat ≤ l.store.calls.count x + (done l').toNat

section

variable {x : BackendCall} {done : Ledger (Recorded σ) → Bool}

theorem Once.refl (l : Ledger (Recorded σ)) : Once x done l l := Nat.le_refl _

theorem Once.trans (h : Once x done l l') (h' : Once x done l' l'') : Once x done l l'' := by
  unfold Once at h h' ⊢
  omega

/-- Other calls are made, and what is done stays done. -/
theorem once_of_count_eq (h : l'.store.calls.count x = l.store.calls.count x)
    (hdone : done l = true → done l' = true) : Once x done l l' := by
  unfold Once
  rw [h]
  cases hl : done l with
  | false => simp
  | true => simp only [hdone hl, Nat.le_refl]

/-- The call is made, and done is what was not. -/
theorem once_of_count_succ (h : l'.store.calls.count x = l.store.calls.count x + 1)
    (hl : done l = false) (hl' : done l' = true) : Once x done l l' := by
  unfold Once
  rw [h, hl, hl']
  exact Nat.le_refl _

/-- The call is on record once more at most. -/
theorem Once.count_le (h : Once x done l l')
    (hrecord : l'.store.events = l.store.events ++ events) :
    (events.map BackendEvent.call).count x ≤ 1 := by
  have hcalls : l'.store.calls = l.store.calls ++ events.map BackendEvent.call := by
    rw [Recorded.calls, Recorded.calls, hrecord, List.map_append]
  have hle := (done l').toNat_le
  unfold Once at h
  rw [hcalls, List.count_append] at h
  omega

end

/-- The month was loaded. -/
def isKept (month : Month) (l : Ledger (Recorded σ)) : Bool := (l.cached? month).isSome

/-- The mark is kept. -/
def hasMark (e : Mark) (l : Ledger (Recorded σ)) : Bool :=
  (l.marks e.month).contains (e.employee, e.marker)

theorem hasMark_of_keeps (h : l.Keeps e.month l') (he : l.hasMark e = true) :
    l'.hasMark e = true := by
  unfold hasMark at he ⊢
  rw [List.contains_iff_mem] at he ⊢
  exact h _ he

/-! ## One call -/

theorem calls_loaded : (l.loaded b.recorded m).store.calls =
    if (l.cached? m).isSome then l.store.calls else l.store.calls ++ [.load m] := by
  rw [store_loaded]
  split
  · rfl
  · simp [Backend.recorded, Recorded.calls, BackendEvent.call]

theorem isKept_loaded (h : l.isKept month = true) :
    (l.loaded b.recorded m).isKept month = true := by
  unfold isKept at h ⊢
  by_cases hm : month = m
  · rw [hm, cached?_loaded]
    rfl
  · rwa [cached?_loaded_of_ne _ hm]

theorem once_load_loaded (b : Backend σ) (month m : Month) (l : Ledger (Recorded σ)) :
    Once (.load month) (isKept month) l (l.loaded b.recorded m) := by
  by_cases hkept : (l.cached? m).isSome = true
  · refine once_of_count_eq ?_ isKept_loaded
    rw [calls_loaded, if_pos hkept]
  · have hcalls : (l.loaded b.recorded m).store.calls = l.store.calls ++ [.load m] := by
      rw [calls_loaded, if_neg hkept]
    by_cases hm : m = month
    · subst hm
      refine once_of_count_succ ?_ (Bool.not_eq_true _ ▸ hkept) ?_
      · rw [hcalls, List.count_append, List.count_singleton_self]
      · rw [isKept, cached?_loaded]
        rfl
    · refine once_of_count_eq ?_ isKept_loaded
      rw [hcalls, List.count_append, List.count_singleton, if_neg (by simpa using hm),
        Nat.add_zero]

theorem once_upsert_loaded (b : Backend σ) (e : Mark) (m : Month) (l : Ledger (Recorded σ)) :
    Once (.upsert e) (hasMark e) l (l.loaded b.recorded m) := by
  refine once_of_count_eq ?_ (hasMark_of_keeps (keeps_loaded _ m l))
  rw [calls_loaded]
  split
  · rfl
  · simp

/-- A mark is written if it is new, and only then. -/
theorem calls_markNotified (e : Mark) (l : Ledger (Recorded σ)) :
    (l.markNotified b.recorded e.employee e.month e.marker).2.store.calls =
      if (l.loaded b.recorded e.month).hasMark e = true then
        (l.loaded b.recorded e.month).store.calls
      else (l.loaded b.recorded e.month).store.calls ++ [.upsert e] := by
  have hiff : (l.loaded b.recorded e.month).hasMark e = true ↔
      (e.employee, e.marker) ∈ l.standing b.recorded e.month := by
    rw [hasMark, List.contains_iff_mem, marks_loaded]
  by_cases he : (e.employee, e.marker) ∈ l.standing b.recorded e.month
  · rw [markNotified_of_mem he, if_pos (hiff.mpr he)]
  · rw [markNotified_of_not_mem he, if_neg (mt hiff.mp he)]
    simp [Backend.recorded, Recorded.calls, BackendEvent.call]

theorem hasMark_markNotified (b : Backend σ) (e : Mark) (l : Ledger (Recorded σ)) :
    (l.markNotified b.recorded e.employee e.month e.marker).2.hasMark e = true := by
  rw [hasMark, List.contains_iff_mem, mem_marks_markNotified]
  exact .inl ⟨rfl, rfl⟩

/-- A month that was loaded stays so when a mark is kept. -/
theorem isKept_markNotified (a : Mark) (h : (l.loaded b.recorded a.month).isKept month = true) :
    (l.markNotified b.recorded a.employee a.month a.marker).2.isKept month = true := by
  unfold isKept at h ⊢
  by_cases hm : month = a.month
  · rw [hm, cached?_markNotified]
    rfl
  · rwa [cached?_markNotified_of_ne hm, ← cached?_loaded_of_ne b.recorded hm]

theorem once_load_markNotified (b : Backend σ) (month : Month) (a : Mark)
    (l : Ledger (Recorded σ)) : Once (.load month) (isKept month) l
      (l.markNotified b.recorded a.employee a.month a.marker).2 := by
  refine (once_load_loaded b month a.month l).trans
    (once_of_count_eq ?_ (isKept_markNotified a))
  rw [calls_markNotified]
  split
  · rfl
  · simp

theorem once_upsert_markNotified (b : Backend σ) (e a : Mark) (l : Ledger (Recorded σ)) :
    Once (.upsert e) (hasMark e) l
      (l.markNotified b.recorded a.employee a.month a.marker).2 := by
  have hcalls := calls_markNotified (b := b) a l
  have hkeeps := hasMark_of_keeps (e := e) (keeps_loaded_markNotified b.recorded a l)
  refine (once_upsert_loaded b e a.month l).trans ?_
  by_cases ha : (l.loaded b.recorded a.month).hasMark a = true
  · rw [if_pos ha] at hcalls
    exact once_of_count_eq (by rw [hcalls]) hkeeps
  · rw [if_neg ha] at hcalls
    by_cases hae : a = e
    · subst hae
      refine once_of_count_succ ?_ (Bool.not_eq_true _ ▸ ha) (hasMark_markNotified b a l)
      rw [hcalls, List.count_append, List.count_singleton_self]
    · refine once_of_count_eq ?_ hkeeps
      rw [hcalls, List.count_append, List.count_singleton, if_neg (by simpa using hae),
        Nat.add_zero]

theorem calls_reset (b : Backend σ) (m : Month) (l : Ledger (Recorded σ)) :
    (l.reset b.recorded m).2.store.calls = l.store.calls ++ [.purge m] := by
  simp [reset, Backend.recorded, Recorded.calls, BackendEvent.call]

/-- A call that is made once on the way of loading and of marking is made once by anything that
spares the month. -/
theorem once_perform {x : BackendCall} {done : Ledger (Recorded σ) → Bool}
    (hloaded : ∀ m (l : Ledger (Recorded σ)), Once x done l (l.loaded b.recorded m))
    (hmarked : ∀ (a : Mark) (l : Ledger (Recorded σ)), Once x done l
      (l.markNotified b.recorded a.employee a.month a.marker).2)
    (hreset : ∀ m (l : Ledger (Recorded σ)), m ≤ month → done l = true →
      done (l.reset b.recorded m).2 = true)
    (hdrained : ∀ l : Ledger (Recorded σ), done l = true → done l.drain.2 = true)
    (hx : ∀ m, x ≠ .purge m) {c : LedgerCall} (h : c.Spares month) (l : Ledger (Recorded σ)) :
    Once x done l (l.perform b.recorded c).2 := by
  cases c with
  | has e =>
    rw [perform, hasNotified_eq]
    exact hloaded e.month l
  | mark e => exact hmarked e l
  | reset m =>
    show Once x done l (l.reset b.recorded m).2
    refine once_of_count_eq ?_ (hreset m l h)
    rw [calls_reset, List.count_append, List.count_singleton, if_neg (by simpa using (hx m).symm),
      Nat.add_zero]
  | drain => exact once_of_count_eq (l := l) rfl (hdrained l)
  | reopen => exact h.elim

theorem once_load_perform (b : Backend σ) {c : LedgerCall} (h : c.Spares month)
    (l : Ledger (Recorded σ)) :
    Once (.load month) (isKept month) l (l.perform b.recorded c).2 := by
  refine once_perform (once_load_loaded b month) (once_load_markNotified b month)
    (fun m l hle hkept => ?_) (fun _ hkept => hkept) (fun _ => nofun) h l
  rwa [isKept, cached?_reset, if_pos hle]

theorem once_upsert_perform (b : Backend σ) {c : LedgerCall} (h : c.Spares e.month)
    (l : Ledger (Recorded σ)) :
    Once (.upsert e) (hasMark e) l (l.perform b.recorded c).2 :=
  once_perform (once_upsert_loaded b e) (once_upsert_markNotified b e)
    (fun _ l hle => hasMark_of_keeps (keeps_reset _ hle l)) (fun _ he => he) (fun _ => nofun) h l

/-! ## The record and the warnings -/

/-- What a backend is asked on the way from one ledger to another, and which warnings are handed out
on the way: with those that are left they are the warnings from before and the new ones. -/
structure Logged (l l' : Ledger (Recorded σ)) (events : List BackendEvent) (ws : List Warning) :
    Prop where
  record : l'.store.events = l.store.events ++ events
  warned : ws ++ l'.warnings = l.warnings ++ events.filterMap BackendEvent.readWarning?

theorem Logged.refl (l : Ledger (Recorded σ)) : Logged l l [] [] :=
  ⟨(List.append_nil _).symm, (List.append_nil _).symm⟩

theorem Logged.trans (h : Logged l l' events ws) (h' : Logged l' l'' events' ws') :
    Logged l l'' (events ++ events') (ws ++ ws') where
  record := by rw [h'.record, h.record, List.append_assoc]
  warned := by
    rw [List.append_assoc, h'.warned, ← List.append_assoc, h.warned, List.append_assoc,
      List.filterMap_append]

theorem logged_loaded (b : Backend σ) (m : Month) (l : Ledger (Recorded σ)) :
    ∃ events, Logged l (l.loaded b.recorded m) events [] := by
  cases hc : l.cached? m with
  | some ms =>
    rw [loaded_of_cached hc]
    exact ⟨[], .refl l⟩
  | none =>
    refine ⟨[.load m (b.load m l.store.state).1], ?_, ?_⟩
    · rw [store_loaded, hc]
      rfl
    · simp only [loaded, hc, Backend.recorded]
      rcases b.load m l.store.state with ⟨f | es, s⟩
      · rfl
      · exact (List.append_nil _).symm

theorem logged_markNotified (b : Backend σ) (e : Mark) (l : Ledger (Recorded σ)) :
    ∃ events, Logged l (l.markNotified b.recorded e.employee e.month e.marker).2 events [] := by
  obtain ⟨events, hloaded⟩ := logged_loaded b e.month l
  by_cases he : (e.employee, e.marker) ∈ l.standing b.recorded e.month
  · rw [markNotified_of_mem he]
    exact ⟨events, hloaded⟩
  · rw [markNotified_of_not_mem he]
    exact ⟨_, hloaded.trans ⟨rfl, (List.append_nil _).symm⟩⟩

theorem logged_perform (b : Backend σ) {c : LedgerCall} (h : c ≠ .reopen)
    (l : Ledger (Recorded σ)) : ∃ events,
      Logged l (l.perform b.recorded c).2 events (l.perform b.recorded c).1.handed := by
  cases c with
  | has e =>
    rw [perform, hasNotified_eq]
    exact logged_loaded b e.month l
  | mark e => exact logged_markNotified b e l
  | reset m => exact ⟨_, rfl, (List.append_nil _).symm⟩
  | drain => exact ⟨[], (List.append_nil _).symm, rfl⟩
  | reopen => exact absurd rfl h

theorem logged_performAll (b : Backend σ) {calls : List LedgerCall} (h : .reopen ∉ calls)
    (l : Ledger (Recorded σ)) : ∃ events, Logged l (performAll b.recorded calls l).2 events
      ((performAll b.recorded calls l).1.flatMap LedgerAnswer.handed) := by
  induction calls generalizing l with
  | nil => exact ⟨[], .refl l⟩
  | cons c cs ih =>
    rw [List.mem_cons, not_or] at h
    obtain ⟨events, hc⟩ := logged_perform b (Ne.symm h.1) l
    obtain ⟨events', hcs⟩ := ih h.2 (l.perform b.recorded c).2
    exact ⟨_, hc.trans hcs⟩

/-! ## Calls in any order -/

theorem once_performAll (b : Backend σ) {x : BackendCall} {done : Ledger (Recorded σ) → Bool}
    {calls : List LedgerCall}
    (hstep : ∀ c ∈ calls, ∀ l : Ledger (Recorded σ), Once x done l (l.perform b.recorded c).2)
    (l : Ledger (Recorded σ)) : Once x done l (performAll b.recorded calls l).2 := by
  induction calls generalizing l with
  | nil => exact .refl l
  | cons c cs ih =>
    obtain ⟨hc, hcs⟩ := List.forall_mem_cons.mp hstep
    exact (hc l).trans (ih hcs _)

/-- A mark that was made is kept as long as its month is. -/
theorem hasMark_performAll (b : Backend σ) {calls : List LedgerCall}
    (h : ∀ c ∈ calls, c.Spares e.month) (he : .mark e ∈ calls) (l : Ledger (Recorded σ)) :
    (performAll b.recorded calls l).2.hasMark e = true := by
  induction calls generalizing l with
  | nil => exact nomatch he
  | cons c cs ih =>
    obtain ⟨-, hcs⟩ := List.forall_mem_cons.mp h
    rcases List.mem_cons.mp he with rfl | he
    · exact hasMark_of_keeps (keeps_performAll _ hcs _) (hasMark_markNotified b e l)
    · exact ih hcs he _

theorem sent_of_hasMark (h : l.hasMark e = true) :
    (l.perform b.recorded (.has e)).1 = .sent true := by
  rw [hasMark, List.contains_iff_mem] at h
  have hstanding := mem_standing_of_mem_marks (b := b.recorded) h
  rw [perform, hasNotified_eq, List.contains_iff_mem.mpr hstanding]
  rfl

theorem handed_of_not_drain (b : Backend σ) {calls : List LedgerCall} (h : .drain ∉ calls)
    (l : Ledger (Recorded σ)) :
    (performAll b.recorded calls l).1.flatMap LedgerAnswer.handed = [] := by
  induction calls generalizing l with
  | nil => rfl
  | cons c cs ih =>
    rw [List.mem_cons, not_or] at h
    rw [performAll, List.flatMap_cons, ih h.2, List.append_nil]
    cases c with
    | drain => exact absurd rfl h.1
    | has | mark | reset | reopen => rfl

/-- **A mark sticks, and is written once.** Between two ledgers, the first of which may have any
calls behind it, and whatever the backend answers: while no call asks to forget a month, it is
loaded once at most, with one warning at most that it could not be; a mark in it is written once at
most, and the ledger answers from then on that it was sent. The warnings of all months are those of
the loads that failed, in their order. Each is handed out once, by the next call to do so. -/
theorem marks_stick (b : Backend σ) (l : Ledger (Recorded σ)) {calls : List LedgerCall}
    (hcalls : .reopen ∉ calls) :
    let r := performAll b.recorded calls l
    ∃ events, r.2.store.events = l.store.events ++ events ∧
      (∀ e : Mark, (∀ c ∈ calls, c.Spares e.month) →
        (.mark e ∈ calls → (r.2.perform b.recorded (.has e)).1 = .sent true) ∧
        (events.map BackendEvent.call).count (.load e.month) ≤ 1 ∧
        (events.map BackendEvent.call).count (.upsert e) ≤ 1 ∧
        ((events.filterMap BackendEvent.readWarning?).filterMap Warning.unread?).count e.month
          ≤ 1) ∧
      r.1.flatMap LedgerAnswer.handed ++ r.2.warnings =
        l.warnings ++ events.filterMap BackendEvent.readWarning? ∧
      (.drain ∉ calls →
        r.2.drain.1 = l.warnings ++ events.filterMap BackendEvent.readWarning?) ∧
      r.2.drain.2.warnings = [] := by
  intro r
  obtain ⟨events, hlogged⟩ := logged_performAll b hcalls l
  refine ⟨events, hlogged.record, fun e hspares => ?_, hlogged.warned, fun hdrain => ?_, rfl⟩
  · have hloads := once_performAll b (fun c hc => once_load_perform b (hspares c hc)) l
    have hwrites := once_performAll b (fun c hc => once_upsert_perform b (hspares c hc)) l
    have hload := hloads.count_le hlogged.record
    exact ⟨fun he => sent_of_hasMark (hasMark_performAll b hspares he l), hload,
      hwrites.count_le hlogged.record,
      Nat.le_trans (BackendEvent.count_unread_le events e.month) hload⟩
  · have hwarned := hlogged.warned
    rwa [handed_of_not_drain b hdrain l, List.nil_append] at hwarned

private def stuckMonth : Month := (Month.of? 2026 10).getD default

private def stuckMark : Mark := ⟨"1001", stuckMonth, .level .p90⟩

/-- A ledger over a memory that can be neither read nor written. -/
private def deafLedger : Ledger (Recorded MemoryMarks) :=
  .fresh ⟨{ MemoryMarks.empty with failRead := true, failWrite := true }, []⟩

/-- Marked twice, asked about and purged up to its month, over a backend that only fails. -/
private def stuckCalls : List LedgerCall :=
  [.mark stuckMark, .has stuckMark, .drain, .mark stuckMark, .reset stuckMonth]

theorem marks_stick_sample :
    let r := performAll Backend.memory.recorded stuckCalls deafLedger
    (r.2.perform Backend.memory.recorded (.has stuckMark)).1 = .sent true ∧
      r.2.store.calls.count (.load stuckMonth) = 1 ∧
      r.2.store.calls.count (.upsert stuckMark) = 1 ∧
      (r.1.flatMap LedgerAnswer.handed).filterMap Warning.unread? = [stuckMonth] ∧
      r.2.warnings = [] := by
  have hcalls : .reopen ∉ stuckCalls := by decide
  obtain ⟨events, hevents, hmark, hwarned, -⟩ := marks_stick Backend.memory deafLedger hcalls
  obtain ⟨hsent, hload, hupsert, -⟩ := hmark stuckMark (by decide)
  rw [show deafLedger.store.events = [] from rfl, List.nil_append] at hevents
  rw [← hevents] at hload hupsert
  -- it was tried, and the one warning of it has been handed out
  obtain ⟨hloaded, hwritten, hunread, hleft⟩ :
      let r := performAll Backend.memory.recorded stuckCalls deafLedger
      (.load stuckMonth) ∈ r.2.store.calls ∧ (.upsert stuckMark) ∈ r.2.store.calls ∧
        (r.2.store.events.filterMap BackendEvent.readWarning?).filterMap Warning.unread? =
          [stuckMonth] ∧ r.2.warnings = [] := by
    decide +kernel
  rw [hleft, List.append_nil, show deafLedger.warnings = [] from rfl, List.nil_append, ← hevents]
    at hwarned
  exact ⟨hsent (by decide), Nat.le_antisymm hload (List.count_pos_iff.mpr hloaded),
    Nat.le_antisymm hupsert (List.count_pos_iff.mpr hwritten), hwarned ▸ hunread, hleft⟩

end Ledger

end OvertimeNotice
