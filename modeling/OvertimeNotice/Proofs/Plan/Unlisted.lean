import Mathlib.Data.List.Forall2
import OvertimeNotice.Proofs.Plan.Outcome
import OvertimeNotice.Proofs.Plan.Intake

/-!
# Taking an employee off the list

An employee who is not listed receives no report of their own, except direct notice. Nothing else
about a run depends on the list.

* `Config.unlisting`, `PlanEntry.unlisting`: the list without an employee, and an entry without it.
* `Warned`: the warnings that go with entries.
* `Unlisted`: how the outcomes differ; `unlisted_outcome`: one record,
  `unlisted_decideAll`: all records.
* `run_unlisting`: how the reports differ.
-/

namespace OvertimeNotice

/-- The configuration that does not list an employee. -/
def Config.unlisting (c : Config) (employee : String) : Config :=
  { c with
    selfNotify := { c.selfNotify with allowlist := c.selfNotify.allowlist.erase employee } }

namespace PlanEntry

/-- The entry for its managers alone. -/
def toManagers (e : PlanEntry) : PlanEntry :=
  { e with
    recipients := { e.recipients with employee := none }
    recipientGap := e.recipients.managers.isEmpty }

/-- The entry, for its managers alone if it is on the employee; direct notice stays. -/
def unlisting (employee : String) (e : PlanEntry) : PlanEntry :=
  if e.snapshot.employee = employee ∧ e.kind ≠ .selfEscalation then e.toManagers else e

theorem unlisting_withStatePersisted (employee : String) (e : PlanEntry) (p : Bool) :
    ({ e with statePersisted := p } : PlanEntry).unlisting employee =
      { e.unlisting employee with statePersisted := p } := by
  unfold unlisting
  split <;> rfl

theorem snapshot_unlisting (employee : String) (e : PlanEntry) :
    (e.unlisting employee).snapshot = e.snapshot := by
  unfold unlisting
  split <;> rfl

theorem statePersisted_unlisting (employee : String) (e : PlanEntry) :
    (e.unlisting employee).statePersisted = e.statePersisted := by
  unfold unlisting
  split <;> rfl

end PlanEntry

namespace Planner

/-! ## The warnings of entries -/

/-- The warnings that go with entries, one after the other: that an entry has no recipient, and the
`failures` to write its mark. -/
inductive Warned : (es : List PlanEntry) → (failures : List (List Warning)) → List Warning → Prop
  where
  | nil : Warned [] [] []
  | cons {e : PlanEntry} {fs : List Warning} {es : List PlanEntry} {failures : List (List Warning)}
      {ws : List Warning} (hp : e.statePersisted = true → fs = [])
      (hf : ∀ w ∈ fs, ∃ k reason, w = .stateWriteFailed e.snapshot.employee k reason)
      (h : Warned es failures ws) :
      Warned (e :: es) (fs :: failures) (gapWarnings e ++ fs ++ ws)

section

variable {es es' : List PlanEntry} {failures failures' : List (List Warning)}
  {ws ws' : List Warning}

theorem Warned.append (h : Warned es failures ws) (h' : Warned es' failures' ws') :
    Warned (es ++ es') (failures ++ failures') (ws ++ ws') := by
  induction h with
  | nil => exact h'
  | cons hp hf _ ih =>
    rw [List.append_assoc]
    exact .cons hp hf ih

theorem Warned.singleton {e : PlanEntry} {fs : List Warning}
    (hp : e.statePersisted = true → fs = [])
    (hf : ∀ w ∈ fs, ∃ k reason, w = .stateWriteFailed e.snapshot.employee k reason) :
    Warned [e] [fs] (gapWarnings e ++ fs) := by
  rw [← List.append_nil (gapWarnings e ++ fs)]
  exact .cons hp hf .nil

theorem Warned.singleton_gaps (e : PlanEntry) : Warned [e] [[]] (gapWarnings e) := by
  simpa using Warned.cons (e := e) (fun _ => rfl) (by simp) Warned.nil

/-- Where every mark was written, all warnings are about recipients. -/
theorem Warned.eq_gaps (h : Warned es failures ws) (hp : ∀ e ∈ es, e.statePersisted = true) :
    ws = es.flatMap gapWarnings := by
  induction h with
  | nil => rfl
  | cons hfs _ _ ih =>
    obtain ⟨he, hes⟩ := List.forall_mem_cons.mp hp
    rw [hfs he, List.append_nil, List.flatMap_cons, ih hes]

end

/-! ## One record -/

variable {σ : Type} {b : Backend σ} {c : Config} {r : OvertimeRecord} {s : Snapshot}
  {l : Ledger σ} {employee : String}

/-- The warning that a mark could not be written. -/
def writeFailures (employee : String) (k : Marker) : Except Failure Unit → List Warning
  | .ok _ => []
  | .error f => [.stateWriteFailed employee k f.message]

theorem marked_eq {k : Marker} {e : PlanEntry} (he : e.statePersisted = true) :
    marked b r k e l =
      let m := l.markNotified b r.employee r.month k
      (({ e with statePersisted := m.1.isOk }, gapWarnings e ++ writeFailures r.employee k m.1),
        m.2) := by
  unfold marked
  split
  · rename_i h
    simp only [h, writeFailures, List.append_nil]
    rw [show (Except.ok () : Except Failure Unit).isOk = e.statePersisted from he.symm]
  · rename_i h
    simp only [h, writeFailures]
    rfl

/-- The outcome is the same, but for the recipients of the employee's entries and what is said of
them. -/
structure Unlisted (employee : String) (o o' : Outcome) : Prop where
  snapshot : o'.snapshot = o.snapshot
  suppressed : o'.suppressed = o.suppressed
  entries : o'.entries = o.entries.map (PlanEntry.unlisting employee)
  warnings : ∃ failures, Warned o.entries failures o.warnings ∧
    Warned o'.entries failures o'.warnings

theorem entry_unlisting {kind : EntryKind} {mode mode' : RunMode} (hs : s.employee = r.employee)
    (hk : kind ≠ .selfEscalation) :
    entry kind mode ((c.unlisting employee).recipientsOf r.department r.employee r.identity mode'
        s.severity) s =
      (entry kind mode (c.recipientsOf r.department r.employee r.identity mode' s.severity)
        s).unlisting employee := by
  have hlisted : (c.unlisting employee).selfAllowed r.employee =
      (c.selfAllowed r.employee && r.employee != employee) := by
    rw [Bool.eq_iff_iff]
    simp [Config.selfAllowed, Config.unlisting, and_assoc]
  have hmanagers : (c.unlisting employee).managers r.department = c.managers r.department := rfl
  by_cases he : r.employee = employee
  · subst he
    have hon : (entry kind mode (c.recipientsOf r.department r.employee r.identity mode'
        s.severity) s).unlisting r.employee = PlanEntry.toManagers _ :=
      if_pos ⟨hs, hk⟩
    rw [hon]
    simp [entry, PlanEntry.toManagers, Config.recipientsOf, Recipients.isEmpty, hlisted, hmanagers]
  · have hoff : (entry kind mode (c.recipientsOf r.department r.employee r.identity mode'
        s.severity) s).unlisting employee = _ :=
      if_neg fun h => he (hs.symm.trans h.1)
    rw [hoff]
    simp [Config.recipientsOf, hlisted, hmanagers, he]

/-- Writing a mark ends the same whatever the recipients of its entry. -/
theorem unlisted_marked {k : Marker} {e : PlanEntry} (he : e.statePersisted = true)
    (hr : e.snapshot.employee = r.employee) (employee : String) (l : Ledger σ) :
    let m := marked b r k e l
    let m' := marked b r k (e.unlisting employee) l
    m'.2 = m.2 ∧ m'.1.1 = m.1.1.unlisting employee ∧
      ∃ failures, Warned [m.1.1] failures m.1.2 ∧ Warned [m'.1.1] failures m'.1.2 := by
  have he' := (PlanEntry.statePersisted_unlisting employee e).trans he
  have hr' := (congrArg Snapshot.employee (PlanEntry.snapshot_unlisting employee e)).trans hr
  simp only [marked_eq he, marked_eq he', PlanEntry.unlisting_withStatePersisted]
  refine ⟨trivial, trivial, [_], Warned.singleton ?_ ?_, Warned.singleton ?_ ?_⟩
  all_goals cases (l.markNotified b r.employee r.month k).1
  all_goals simp [writeFailures, Except.isOk, Except.toBool, hr, hr']

theorem unlisted_ordinaryOutcome (hs : s.employee = r.employee) (employee : String)
    (l : Ledger σ) :
    let o := ordinaryOutcome b c r s l
    let o' := ordinaryOutcome b (c.unlisting employee) r s l
    o'.2 = o.2 ∧ Unlisted employee o.1 o'.1 := by
  unfold ordinaryOutcome
  dsimp only
  split
  · split
    · exact ⟨rfl, rfl, rfl, rfl, [], .nil, .nil⟩
    · rename_i l₁ _
      let e := entry .ordinary .threshold
        (c.recipientsOf r.department r.employee r.identity .threshold s.severity) s
      rw [entry_unlisting hs (by decide : EntryKind.ordinary ≠ .selfEscalation)]
      obtain ⟨hledger, hentry, hwarned⟩ :=
        unlisted_marked (b := b) (r := r) (k := .level s.severity) (e := e) rfl hs employee l₁
      exact ⟨hledger, rfl, rfl, congrArg (fun e => [e]) hentry, hwarned⟩
  · exact ⟨rfl, rfl, rfl, rfl, [], .nil, .nil⟩

theorem unlisted_withEscalation {o o' : Outcome} (hs : o.snapshot.employee = r.employee)
    (h : Unlisted employee o o') (l : Ledger σ) :
    let w := withEscalation b c r (o, l)
    let w' := withEscalation b (c.unlisting employee) r (o', l)
    w'.2 = w.2 ∧ Unlisted employee w.1 w'.1 := by
  have hidentity : escalationIdentity? (c.unlisting employee) r o'.snapshot =
      escalationIdentity? c r o.snapshot := by
    rw [h.snapshot]
    rfl
  unfold withEscalation
  simp only [hidentity]
  split
  · exact ⟨rfl, h⟩
  · rename_i identity _
    split
    · exact ⟨rfl, h⟩
    · rename_i l₁ _
      let e := entry .selfEscalation .threshold (.onlyEmployee identity) o.snapshot
      -- direct notice is not withheld
      have he : e.unlisting employee = e := if_neg fun hk => hk.2 rfl
      obtain ⟨-, hentry, failures, hwarned, -⟩ :=
        unlisted_marked (b := b) (r := r) (k := .selfEscalation) (e := e) rfl hs employee l₁
      rw [he] at hentry
      obtain ⟨failures₁, hw, hw'⟩ := h.warnings
      rw [h.snapshot]
      refine ⟨rfl, rfl, h.suppressed, ?_, failures₁ ++ failures, hw.append hwarned,
        hw'.append hwarned⟩
      simp only [h.entries, List.map_append, List.map_singleton]
      rw [← hentry]

/-- One record. -/
theorem unlisted_outcome (mode : RunMode) (hs : s.employee = r.employee)
    (hm : s.month = r.month) (employee : String) (l : Ledger σ) :
    let o := outcome b c mode r s l
    let o' := outcome b (c.unlisting employee) mode r s l
    o'.2 = o.2 ∧ Unlisted employee o.1 o'.1 := by
  cases mode with
  | forced =>
    have hk : EntryKind.forced ≠ .selfEscalation := by decide
    exact ⟨rfl, rfl, rfl, congrArg (fun e => [e]) (entry_unlisting hs hk), [[]],
      .singleton_gaps _, .singleton_gaps _⟩
  | threshold =>
    obtain ⟨hledger, h⟩ := unlisted_ordinaryOutcome (b := b) (c := c) hs employee l
    obtain ⟨hsnap, -⟩ := ordinaryOutcome_threshold (b := b) (c := c) (l := l) hs hm
    simp only [outcome]
    rw [← Prod.eta (ordinaryOutcome b (c.unlisting employee) r s l), hledger]
    exact unlisted_withEscalation ((congrArg Snapshot.employee hsnap).trans hs) h _

/-! ## All records -/

theorem unlisted_decideAll (mode : RunMode) {work : List (OvertimeRecord × Snapshot)}
    (hw : ∀ w ∈ work, w.2.employee = w.1.employee ∧ w.2.month = w.1.month) (employee : String)
    (l : Ledger σ) :
    let d := decideAll b c mode work l
    let d' := decideAll b (c.unlisting employee) mode work l
    d'.2 = d.2 ∧ List.Forall₂ (Unlisted employee) d.1 d'.1 := by
  induction work generalizing l with
  | nil => exact ⟨rfl, .nil⟩
  | cons w work ih =>
    obtain ⟨⟨hs, hm⟩, hw⟩ := List.forall_mem_cons.mp hw
    obtain ⟨hledger, ho⟩ := unlisted_outcome (b := b) (c := c) mode hs hm employee l
    obtain ⟨hledger', hos⟩ := ih hw (outcome b c mode w.1 w.2 l).2
    simp only [decideAll, hledger]
    exact ⟨hledger', .cons ho hos⟩

/-- The outcomes together. -/
theorem unlisted_flatMap {os os' : List Outcome} (h : List.Forall₂ (Unlisted employee) os os') :
    os'.map (·.snapshot) = os.map (·.snapshot) ∧
      os'.flatMap (·.suppressed) = os.flatMap (·.suppressed) ∧
      os'.flatMap (·.entries) = (os.flatMap (·.entries)).map (PlanEntry.unlisting employee) ∧
      ∃ failures, Warned (os.flatMap (·.entries)) failures (os.flatMap (·.warnings)) ∧
        Warned (os'.flatMap (·.entries)) failures (os'.flatMap (·.warnings)) := by
  induction h with
  | nil => exact ⟨rfl, rfl, rfl, [], .nil, .nil⟩
  | cons ho _ ih =>
    obtain ⟨hsnap, hsupp, hentries, failures, hw, hw'⟩ := ih
    obtain ⟨failures₁, hw₁, hw₁'⟩ := ho.warnings
    refine ⟨?_, ?_, ?_, failures₁ ++ failures, hw₁.append hw, hw₁'.append hw'⟩
    · rw [List.map_cons, List.map_cons, ho.snapshot, hsnap]
    · rw [List.flatMap_cons, List.flatMap_cons, ho.suppressed, hsupp]
    · rw [List.flatMap_cons, List.flatMap_cons, List.map_append, ho.entries, hentries]

/-- The warnings of a run follow its entries. -/
theorem warned_decideAll (mode : RunMode) {work : List (OvertimeRecord × Snapshot)}
    (hw : ∀ w ∈ work, w.2.employee = w.1.employee ∧ w.2.month = w.1.month) (l : Ledger σ) :
    let os := (decideAll b c mode work l).1
    ∃ failures, Warned (os.flatMap (·.entries)) failures (os.flatMap (·.warnings)) := by
  obtain ⟨-, h⟩ := unlisted_decideAll (b := b) (c := c) mode hw "" l
  obtain ⟨-, -, -, failures, hwarned, -⟩ := unlisted_flatMap h
  exact ⟨failures, hwarned⟩

/-- Without an employee on the list a run gives the same report, but for the recipients of their
entries and the warnings about those, and leaves the same ledger. -/
theorem run_unlisting {runId : String} {now : Moment} {decision : RunDecision}
    {rows : List RawRow} {l' : Ledger σ} {rep : Report}
    (h : run b c runId now decision rows l = (.ok rep, l')) (employee : String) :
    ∃ rep', run b (c.unlisting employee) runId now decision rows l = (.ok rep', l') ∧
      rep' = { rep with
        entries := rep.entries.map (PlanEntry.unlisting employee)
        warnings := rep'.warnings } ∧
      ∃ before failures ws ws', rep.warnings = before ++ ws ∧ Warned rep.entries failures ws ∧
        rep'.warnings = before ++ ws' ∧ Warned rep'.entries failures ws' := by
  obtain ⟨work, hev, rfl, rfl⟩ := run_eq_ok h
  obtain ⟨hledger, hos⟩ := unlisted_decideAll (b := b) (c := c) decision.mode
    hev.workOf.subject employee l
  obtain ⟨hsnap, hsupp, hentries, failures, hw, hw'⟩ := unlisted_flatMap hos
  have hev' : Evaluated (c.unlisting employee) (intake now.toMonth rows).records work :=
    ⟨hev.records, hev.snapshot⟩
  have hrun := run_of_evaluated (b := b) hev' runId decision l
  simp only [hledger] at hrun
  refine ⟨_, hrun, ?_, _, failures, _, _, rfl, hw, rfl, hw'⟩
  simp only [report, hsnap, hsupp, hentries]

end Planner

end OvertimeNotice
