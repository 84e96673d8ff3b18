import OvertimeNotice.Plan.Planner
import OvertimeNotice.Proofs.Ledger.Standing

/-!
# What a run decides about one employee

In a run on steps newly reached, the entries on an employee follow from the marks that stood before
anything was decided about them, and their marks are all that is added.

* `StepDue`, `NoticeDue`: when each entry is due, given what was sent.
* `Steps`: what a run may do to its ledger; `Steps.standing`: it then has the marks of the entries
  besides.
* `outcome_threshold`: the two together, for one record.
-/

namespace OvertimeNotice

namespace PlanEntry

/-- The marker that goes with an entry; an entry of a run on everyone has none. -/
def marker? (e : PlanEntry) : Option Marker :=
  match e.kind with
  | .ordinary => some (.level e.snapshot.severity)
  | .selfEscalation => some .selfEscalation
  | .forced => none

/-- The mark that goes with an entry. -/
def mark? (e : PlanEntry) : Option Mark :=
  e.marker?.map fun k => { employee := e.snapshot.employee, month := e.snapshot.month, marker := k }

/-- The entry as it was planned, before its mark was to be written. -/
def planned (e : PlanEntry) : PlanEntry := { e with statePersisted := true }

theorem mark?_planned (e : PlanEntry) : e.planned.mark? = e.mark? := rfl

theorem filterMap_mark?_planned (es : List PlanEntry) :
    (es.map planned).filterMap mark? = es.filterMap mark? := by
  rw [List.filterMap_map]
  rfl

end PlanEntry

namespace Planner

/-! ## What is due -/

/-- The employee has reached a step that is reported and was not sent. -/
def StepDue (sent : MonthMarks) (s : Snapshot) : Prop :=
  s.severity.isNotifiable = true ∧ (s.employee, .level s.severity) ∉ sent

/-- Direct notice is on, the employee has reached its threshold, and none was sent. -/
def NoticeDue (c : Config) (sent : MonthMarks) (s : Snapshot) : Prop :=
  c.selfNotify.enabled = true ∧ c.selfNotify.threshold.le s.percent = true ∧
    (s.employee, .selfEscalation) ∉ sent

instance (sent : MonthMarks) (s : Snapshot) : Decidable (StepDue sent s) := instDecidableAnd

instance (c : Config) (sent : MonthMarks) (s : Snapshot) : Decidable (NoticeDue c sent s) :=
  instDecidableAnd

variable {σ : Type} (b : Backend σ) (c : Config) (sent : MonthMarks) (r : OvertimeRecord)
  (s : Snapshot)

/-- The ordinary entry on an employee, if it is due. -/
def stepEntries : List PlanEntry :=
  if StepDue sent s then
    [entry .ordinary .threshold
      (c.recipientsOf r.department r.employee r.identity .threshold s.severity) s]
  else []

/-- The direct notice to an employee who can be reached, if it is due. -/
def noticeEntries : List PlanEntry :=
  match r.identity with
  | some identity =>
    if NoticeDue c sent s then [entry .selfEscalation .threshold (.onlyEmployee identity) s]
    else []
  | none => []

/-- Why there is no ordinary entry on an employee, if there is none. -/
def stepSuppressed : List Suppressed :=
  if StepDue sent s then []
  else
    [{ employee := s.employee, percent := s.percent
       reason :=
        if s.severity = .none then .belowThreshold else .alreadyNotified s.severity }]

/-- The ledger is asked about an employee: about a step, or about direct notice. -/
def Consults : Prop :=
  s.severity.isNotifiable = true ∨
    c.selfNotify.enabled = true ∧ c.selfNotify.threshold.le s.percent = true ∧
      r.identity.isSome = true

variable {b c sent r s} {sent' : MonthMarks}

theorem stepDue_congr (h : ∀ k, (s.employee, k) ∈ sent ↔ (s.employee, k) ∈ sent') :
    StepDue sent s ↔ StepDue sent' s := by
  rw [StepDue, StepDue, h]

theorem noticeDue_congr
    (h : (s.employee, .selfEscalation) ∈ sent ↔ (s.employee, .selfEscalation) ∈ sent') :
    NoticeDue c sent s ↔ NoticeDue c sent' s := by
  rw [NoticeDue, NoticeDue, h]

theorem stepEntries_congr (h : ∀ k, (s.employee, k) ∈ sent ↔ (s.employee, k) ∈ sent') :
    stepEntries c sent r s = stepEntries c sent' r s := by
  simp only [stepEntries, stepDue_congr h]

theorem stepSuppressed_congr (h : ∀ k, (s.employee, k) ∈ sent ↔ (s.employee, k) ∈ sent') :
    stepSuppressed sent s = stepSuppressed sent' s := by
  simp only [stepSuppressed, stepDue_congr h]

theorem noticeEntries_congr
    (h : (s.employee, .selfEscalation) ∈ sent ↔ (s.employee, .selfEscalation) ∈ sent') :
    noticeEntries c sent r s = noticeEntries c sent' r s := by
  simp only [noticeEntries, noticeDue_congr h]

theorem mem_stepEntries {e : PlanEntry} (h : e ∈ stepEntries c sent r s) :
    e.kind = .ordinary ∧ e.snapshot = s := by
  unfold stepEntries at h
  split at h
  · rw [List.mem_singleton.mp h]
    exact ⟨rfl, rfl⟩
  · exact nomatch h

theorem mem_noticeEntries {e : PlanEntry} (h : e ∈ noticeEntries c sent r s) :
    e.kind = .selfEscalation ∧ e.snapshot = s := by
  unfold noticeEntries at h
  split at h
  · split at h
    · rw [List.mem_singleton.mp h]
      exact ⟨rfl, rfl⟩
    · exact nomatch h
  · exact nomatch h

/-! ## What is done to a ledger -/

/-- What a run does to its ledger about a month, and the entries that come of it: it looks the month
up, and marks what was not sent. The ledger is not touched unless it is `asked`. -/
inductive Steps (b : Backend σ) (month : Month) :
    Ledger σ → Ledger σ → List PlanEntry → (asked : Prop) → Prop where
  | idle {l : Ledger σ} {asked : Prop} (h : ¬asked) : Steps b month l l [] asked
  | looked {l : Ledger σ} {asked : Prop} (h : asked) : Steps b month l (l.loaded b month) [] asked
  | sent {l : Ledger σ} {asked : Prop} {r : OvertimeRecord} {k : Marker} {e : PlanEntry} (h : asked)
      (hr : r.month = month) (hk : e.mark? = some ⟨r.employee, month, k⟩)
      (he : e.statePersisted = true) (hn : k ≠ .level .none)
      (hnew : (r.employee, k) ∉ l.standing b month) :
      Steps b month l (marked b r k e (l.loaded b month)).2
        [(marked b r k e (l.loaded b month)).1.1] asked
  | trans {l l₁ l₂ : Ledger σ} {es es₁ : List PlanEntry} {asked asked₁ : Prop}
      (h : Steps b month l l₁ es asked) (h₁ : Steps b month l₁ l₂ es₁ asked₁) :
      Steps b month l l₂ (es ++ es₁) (asked ∨ asked₁)

theorem marked_ledger {l : Ledger σ} {k : Marker} {e : PlanEntry} :
    (marked b r k e l).2 = (l.markNotified b r.employee r.month k).2 := by
  unfold marked
  split <;> simp_all

theorem marked_planned {l : Ledger σ} {k : Marker} {e : PlanEntry} :
    (marked b r k e l).1.1.planned = e.planned := by
  unfold marked
  split <;> rfl

theorem marked_statePersisted {l : Ledger σ} {k : Marker} {e : PlanEntry}
    (he : e.statePersisted = true) : (marked b r k e l).1.1.statePersisted =
      (l.markNotified b r.employee r.month k).1.isOk := by
  unfold marked
  split <;> simp_all [Except.isOk, Except.toBool]

theorem mark?_marked {l : Ledger σ} {k : Marker} {e : PlanEntry} :
    (marked b r k e l).1.1.mark? = e.mark? := by
  rw [← PlanEntry.mark?_planned, marked_planned, PlanEntry.mark?_planned]

variable {month : Month} {l l' : Ledger σ} {es : List PlanEntry} {asked : Prop}

/-- The marks of the entries stand afterwards, whether they could be written or not. -/
theorem Steps.standing (h : Steps b month l l' es asked) (p : String × Marker) :
    p ∈ l'.standing b month ↔
      p ∈ l.standing b month ∨ ⟨p.1, month, p.2⟩ ∈ es.filterMap PlanEntry.mark? := by
  induction h with
  | idle => simp
  | looked => simp [Ledger.standing_loaded]
  | @sent l asked r k e h hr hk he hn hnew =>
    subst hr
    rw [marked_ledger, Ledger.mem_standing_markNotified, Ledger.standing_loaded,
      List.filterMap_cons, mark?_marked, hk, or_comm]
    simp [Prod.ext_iff]
  | trans _ _ ih ih₁ => rw [ih₁, ih, List.filterMap_append, List.mem_append, or_assoc]

theorem Steps.untouched (h : Steps b month l l' es asked) (hn : ¬asked) : l' = l := by
  induction h with
  | idle => rfl
  | looked h => exact absurd h hn
  | sent h => exact absurd h hn
  | trans _ _ ih ih₁ => rw [ih₁ fun h => hn (.inr h), ih fun h => hn (.inl h)]

theorem Steps.cached (h : Steps b month l l' es asked) (ha : asked) :
    (l'.cached? month).isSome = true := by
  induction h with
  | idle h => exact absurd ha h
  | looked => rw [Ledger.cached?_loaded]; rfl
  | @sent l asked r k e h hr hk he hn hnew =>
    subst hr
    rw [marked_ledger, Ledger.cached?_markNotified]
    rfl
  | @trans l l₁ l₂ es es₁ asked asked₁ h h₁ ih ih₁ =>
    by_cases ha₁ : asked₁
    · exact ih₁ ha₁
    · rw [h₁.untouched ha₁]
      exact ih (ha.resolve_right ha₁)

/-! ## One record -/

theorem ordinaryOutcome_threshold (hs : s.employee = r.employee) (hm : s.month = r.month) :
    let o := ordinaryOutcome b c r s l
    let sent := l.standing b r.month
    o.1.snapshot = s ∧ o.1.entries.map PlanEntry.planned = stepEntries c sent r s ∧
      o.1.suppressed = stepSuppressed sent s ∧
      Steps b r.month l o.2 o.1.entries (s.severity.isNotifiable = true) := by
  intro o sent
  by_cases hn : s.severity.isNotifiable = true
  · have hne : s.severity ≠ .none := by simpa [Severity.isNotifiable] using hn
    by_cases hsent : (s.employee, Marker.level s.severity) ∈ sent
    · have hd : ¬StepDue sent s := fun h => h.2 hsent
      have hc : (l.standing b r.month).contains (r.employee, Marker.level s.severity) = true :=
        List.contains_iff_mem.mpr (hs ▸ hsent)
      have ho : o = (⟨s, [], [⟨r.employee, s.percent, .alreadyNotified s.severity⟩], []⟩,
          l.loaded b r.month) := by
        simp only [o, ordinaryOutcome, if_pos hn, Ledger.hasNotified_eq, hc]
      rw [ho, stepEntries, stepSuppressed, if_neg hd, if_neg hd, if_neg hne, hs]
      exact ⟨rfl, rfl, rfl, .looked hn⟩
    · have hd : StepDue sent s := ⟨hn, hsent⟩
      have hc : (l.standing b r.month).contains (r.employee, Marker.level s.severity) = false := by
        rw [← hs]
        simpa using hsent
      let e := entry .ordinary .threshold
        (c.recipientsOf r.department r.employee r.identity .threshold s.severity) s
      let m := marked b r (.level s.severity) e (l.loaded b r.month)
      have ho : o = (⟨s, [m.1.1], [], m.1.2⟩, m.2) := by
        simp only [o, ordinaryOutcome, if_pos hn, Ledger.hasNotified_eq, hc, m, e]
      rw [ho, stepEntries, stepSuppressed, if_pos hd, if_pos hd]
      refine ⟨rfl, ?_, rfl, .sent hn rfl ?_ rfl ?_ ?_⟩
      · exact congrArg (fun e => [e]) marked_planned
      · rw [← hs, ← hm]
        rfl
      · exact fun h => hne (Marker.level.inj h)
      · rwa [← hs]
  · have hd : ¬StepDue sent s := fun h => hn h.1
    have hne : s.severity = .none := by simpa [Severity.isNotifiable] using hn
    have ho : o = (⟨s, [], [⟨r.employee, s.percent, .belowThreshold⟩], []⟩, l) := by
      simp only [o, ordinaryOutcome, if_neg hn]
    rw [ho, stepEntries, stepSuppressed, if_neg hd, if_neg hd, if_pos hne, hs]
    exact ⟨rfl, rfl, rfl, .idle hn⟩

/-- Direct notice is decided after the ordinary entry, on a ledger `l₁` that may have its mark. -/
theorem withEscalation_threshold (hs : s.employee = r.employee) (hm : s.month = r.month)
    {o : Outcome} (ho : o.snapshot = s) :
    let o' := withEscalation b c r (o, l)
    let sent := l.standing b r.month
    let asked := c.selfNotify.enabled = true ∧ c.selfNotify.threshold.le s.percent = true ∧
      r.identity.isSome = true
    o'.1.snapshot = s ∧ o'.1.suppressed = o.suppressed ∧ ∃ es, o'.1.entries = o.entries ++ es ∧
      es.map PlanEntry.planned = noticeEntries c sent r s ∧ Steps b r.month l o'.2 es asked := by
  intro o' sent asked
  cases hi : escalationIdentity? c r s with
  | none =>
    have hn : ¬asked := by
      rintro ⟨he, ht, hr⟩
      rw [escalationIdentity?, he, ht] at hi
      rw [show r.identity = none from hi] at hr
      exact nomatch hr
    have ho' : o' = (o, l) := by simp only [o', withEscalation, ho, hi]
    have hnone : noticeEntries c sent r s = [] := by
      unfold noticeEntries
      split
      · rename_i hid
        exact if_neg fun hd => hn ⟨hd.1, hd.2.1, hid ▸ rfl⟩
      · rfl
    rw [ho', hnone]
    exact ⟨ho, rfl, [], (List.append_nil _).symm, rfl, .idle hn⟩
  | some identity =>
    have ha : asked ∧ r.identity = some identity := by
      unfold escalationIdentity? at hi
      split at hi
      · rename_i h
        obtain ⟨he, ht⟩ := Bool.and_eq_true_iff.mp h
        exact ⟨⟨he, ht, hi ▸ rfl⟩, hi⟩
      · exact nomatch hi
    obtain ⟨⟨he, ht, -⟩, hid⟩ := id ha
    by_cases hsent : (s.employee, Marker.selfEscalation) ∈ sent
    · have hd : ¬NoticeDue c sent s := fun h => h.2.2 hsent
      have hc : (l.standing b r.month).contains (r.employee, Marker.selfEscalation) = true :=
        List.contains_iff_mem.mpr (hs ▸ hsent)
      have ho' : o' = (o, l.loaded b r.month) := by
        simp only [o', withEscalation, ho, hi, Ledger.hasNotified_eq, hc]
      rw [ho', noticeEntries, hid]
      refine ⟨ho, rfl, [], (List.append_nil _).symm, ?_, .looked ha.1⟩
      exact (if_neg hd).symm
    · have hd : NoticeDue c sent s := ⟨he, ht, hsent⟩
      have hc : (l.standing b r.month).contains (r.employee, Marker.selfEscalation) = false := by
        rw [← hs]
        simpa using hsent
      let e := entry .selfEscalation .threshold (.onlyEmployee identity) s
      let m := marked b r .selfEscalation e (l.loaded b r.month)
      have ho' : o' = ({ o with entries := o.entries ++ [m.1.1]
                                warnings := o.warnings ++ m.1.2 }, m.2) := by
        simp only [o', withEscalation, ho, hi, Ledger.hasNotified_eq, hc, m, e]
      rw [ho', noticeEntries, hid]
      refine ⟨ho, rfl, [m.1.1], rfl, ?_, .sent ha.1 rfl ?_ rfl nofun (hs ▸ hsent)⟩
      · refine Eq.trans ?_ (if_pos hd).symm
        exact congrArg (fun e => [e]) marked_planned
      · rw [← hs, ← hm]
        rfl

/-- In a run on steps newly reached, the entries on an employee are those due by the marks that
stood before, and their marks are what the ledger has besides afterwards. -/
theorem outcome_threshold (hs : s.employee = r.employee) (hm : s.month = r.month) :
    let o := outcome b c .threshold r s l
    let sent := l.standing b r.month
    o.1.snapshot = s ∧
      o.1.entries.map PlanEntry.planned = stepEntries c sent r s ++ noticeEntries c sent r s ∧
      o.1.suppressed = stepSuppressed sent s ∧
      Steps b r.month l o.2 o.1.entries (Consults c r s) := by
  obtain ⟨hsnap, hentries, hsupp, hsteps⟩ :=
    ordinaryOutcome_threshold (b := b) (c := c) (l := l) hs hm
  obtain ⟨hsnap', hsupp', es, happ, hes, hsteps'⟩ :=
    withEscalation_threshold (b := b) (c := c) (l := (ordinaryOutcome b c r s l).2) hs hm hsnap
  -- the ordinary entry adds a step, which direct notice does not depend on
  have hnotice : noticeEntries c ((ordinaryOutcome b c r s l).2.standing b r.month) r s =
      noticeEntries c (l.standing b r.month) r s := by
    refine noticeEntries_congr ((hsteps.standing _).trans (or_iff_left ?_))
    rw [← PlanEntry.filterMap_mark?_planned, hentries, List.mem_filterMap]
    rintro ⟨e, he, hk⟩
    rw [PlanEntry.mark?, PlanEntry.marker?, (mem_stepEntries he).1] at hk
    exact nomatch (Mark.mk.inj (Option.some.inj hk)).2.2
  refine ⟨hsnap', ?_, hsupp'.trans hsupp, ?_⟩
  · rw [outcome, happ, List.map_append, hentries, hes, hnotice]
  · rw [outcome, happ]
    exact hsteps.trans hsteps'

end Planner

end OvertimeNotice
