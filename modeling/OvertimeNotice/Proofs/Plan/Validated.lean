import OvertimeNotice.Proofs.Plan.Rows

/-!
# What a checked configuration rules out

Under a configuration that passes its checks no call is made that must not be made, whatever the
rows, the time and the backend: times of day stay within a day, nothing is evaluated without a
ceiling, and the figures stay in range however extreme they are.

* `ForceWindow.Covers`, `inWindow_of_valid`: when a window is open.
* `decideRun_of_valid`: which run is due.
* `Snapshot.Sound`, `sound_of_ofRecord`: the range of an employee's figures.
* `run_never_violates`: all of it together.
-/

namespace OvertimeNotice

namespace ForceWindow

variable {w : ForceWindow}

/-- The minute of the day at the middle of the window. -/
def middle (w : ForceWindow) : Nat := w.hour.toNat * 60 + w.minute.toNat

/-- The moment is on the day of the window, and no more minutes from its middle than the
tolerance. -/
def Covers (w : ForceWindow) (now : Moment) : Prop :=
  now.date.weekday = w.weekday.toNat ∧
    (now.minuteOfDay - w.middle : Int).natAbs ≤ w.tolerance.toNat

instance (w : ForceWindow) (now : Moment) : Decidable (w.Covers now) := instDecidableAnd

theorem validate_eq_ok_iff : w.validate = .ok () ↔
    w.weekday.toNat ≤ 6 ∧ w.hour.toNat ≤ 23 ∧ w.minute.toNat ≤ 59 := by
  have hday : 6 < w.weekday ↔ 6 < w.weekday.toNat := UInt32.lt_iff_toNat_lt
  have hhour : 23 < w.hour ↔ 23 < w.hour.toNat := UInt32.lt_iff_toNat_lt
  have hminute : 59 < w.minute ↔ 59 < w.minute.toNat := UInt32.lt_iff_toNat_lt
  unfold validate
  split
  · rename_i h
    rw [hday] at h
    simp
    omega
  split
  · rename_i h
    rw [hhour, hminute] at h
    simp
    omega
  · rename_i h h'
    rw [hday] at h
    rw [hhour, hminute] at h'
    simp
    omega

/-- The middle of a window that passes its check is a minute of a day, and is worked out without
leaving the range of 32 bits. -/
theorem target_of_valid (h : w.validate = .ok ()) :
    w.target = .ok w.middle ∧ w.middle < 1440 := by
  obtain ⟨-, hhour, hminute⟩ := validate_eq_ok_iff.mp h
  have hproduct : ¬2 ^ 32 ≤ w.hour.toNat * 60 := by omega
  have hsum : ¬2 ^ 32 ≤ w.hour.toNat * 60 + w.minute.toNat := by omega
  constructor
  · simp only [target, middle]
    rw [if_neg hproduct, if_neg hsum]
  · rw [middle]
    omega

end ForceWindow

variable {c : Config}

theorem inWindow_of_valid {w : ForceWindow} (h : w.validate = .ok ()) (now : Moment) :
    inWindow now w = .ok (decide (w.Covers now)) := by
  unfold inWindow ForceWindow.Covers
  by_cases hday : now.date.weekday = w.weekday.toNat
  · rw [if_neg (not_not_intro hday), (ForceWindow.target_of_valid h).1]
    simp [hday, Except.map]
  · rw [if_pos hday]
    simp [hday]

theorem Config.validate_window {w : ForceWindow} (h : c.validate = .ok ())
    (hw : c.window = some w) : w.validate = .ok () := by
  rw [validate, hw] at h
  split at h
  · cases h
  · split at h
    · cases h
    · cases hv : w.validate with
      | ok => rfl
      | error f =>
        simp only [Option.map_some, Option.getD_some, hv] at h
        cases h

/-- Which run is due: overrides come first, then the window. -/
theorem decideRun_of_valid (h : c.validate = .ok ()) (now : Moment) :
    decideRun now c = .ok (
      if c.debug.forceAlways = true then .forced .forceAlways
      else if c.debug.bypassWindow = true then .forced .bypassWindow
      else if ∃ w ∈ c.window, w.Covers now then .forced .window
      else .threshold) := by
  unfold decideRun forceReason?
  split
  · rfl
  split
  · rfl
  cases hw : c.window with
  | none => simp [Except.map]
  | some w =>
    have hopen := inWindow_of_valid (Config.validate_window h hw) now
    by_cases hcovers : w.Covers now
    · simp [hopen, hcovers, Except.map]
    · simp [hopen, hcovers, Except.map]

theorem isSkipDay_iff (day : Date) (c : Config) :
    isSkipDay day c = true ↔ 5 ≤ day.weekday ∨ day ∈ c.holidays := by
  simp [isSkipDay, Date.isWeekend, Config.isHoliday]

/-! ## Figures -/

theorem isFinite_of_moderate {x : Binary64} (h : x.Moderate) : x.isFinite = true := by
  cases h <;> rfl

-- Units are rewritten, never worked out: the kernel would count up to `2 ^ 1074`.
theorem toNatHalfUp_finite (limit s p : Nat) : (Binary64.finite false s p).toNatHalfUp limit =
    min limit (Binary64.roundHalfUp (Binary64.finite false s p).magnitude
      Binary64.unitsPerOne) := by
  simp only [Binary64.toNatHalfUp, Binary64.magnitude, Bool.false_eq_true, if_false]

theorem toNatHalfUp_of_moderate {x : Binary64} (h : x.Moderate) (limit : Nat) :
    x.toNatHalfUp limit = min limit (Binary64.roundHalfUp x.magnitude Binary64.unitsPerOne) := by
  cases h with
  | zero => rw [Binary64.zero, toNatHalfUp_finite]
  | inRange => rw [toNatHalfUp_finite]

/-- A percentage as a whole number is the nearest one, or the largest of 32 bits. -/
theorem toNat_roundedPercent (part whole : UInt32) : (roundedPercent part whole).toNat =
    if whole = 0 then 0
    else min 4294967295
      (Binary64.roundHalfUp (percentOf part whole).magnitude Binary64.unitsPerOne) := by
  have hfits : ∀ n, (UInt32.ofNat (min 4294967295 n)).toNat = min 4294967295 n := by
    intro n
    have hsize : UInt32.size = 4294967296 := rfl
    exact UInt32.toNat_ofNat_of_lt' (by omega)
  by_cases hwhole : whole = 0
  · rw [roundedPercent, if_pos hwhole, if_pos hwhole, UInt32.toNat_zero]
  · rw [roundedPercent, if_neg hwhole, if_neg hwhole,
      toNatHalfUp_of_moderate (percentOf_moderate part hwhole), hfits]

/-- The figures are worked out under a ceiling and stay in range: the percentage is a number, the
one of the previous month is cut off at the largest number of 32 bits, and what is left of the
ceiling fits 64 bits with a sign by far. -/
structure Snapshot.Sound (s : Snapshot) : Prop where
  evaluation : evaluate s.minutes s.ceiling = .ok { percent := s.percent, severity := s.severity }
  percent : s.percent.isFinite = true
  percentVsLast : s.percentVsLast.toNat =
    let previous := s.previousMinutes.getD 0
    if previous = 0 then 0
    else min 4294967295
      (Binary64.roundHalfUp (percentOf s.minutes previous).magnitude Binary64.unitsPerOne)
  remaining : s.remaining = (s.ceiling.toNat : Int) - s.minutes.toNat
  range : -4294967295 ≤ s.remaining ∧ s.remaining ≤ 4294967295

theorem sound_of_ofRecord {r : OvertimeRecord} {ceiling : UInt32} {s : Snapshot}
    (h : Snapshot.ofRecord r ceiling = .ok s) : s.Sound := by
  have hfinite := isFinite_of_moderate (Snapshot.moderate_percent h)
  obtain ⟨e, he, rfl⟩ := Snapshot.ofRecord_eq_ok h
  have hminutes := r.minutes.toNat_lt
  have hceiling := ceiling.toNat_lt
  refine ⟨he, hfinite, toNat_roundedPercent _ _, rfl, ?_, ?_⟩
  · simp only
    omega
  · simp only
    omega

/-! ## Runs -/

namespace Planner

variable {σ : Type}

theorem sound_of_report {b : Backend σ} {runId : String} {now : Moment} {decision : RunDecision}
    {rows : List RawRow} {l l' : Ledger σ} {rep : Report}
    (h : run b c runId now decision rows l = (.ok rep, l')) : ∀ s ∈ rep.evaluated, s.Sound := by
  obtain ⟨work, hev, hevaluated⟩ := evaluated_of_report h
  intro s hs
  rw [hevaluated] at hs
  obtain ⟨w, hw, rfl⟩ := List.mem_map.mp hs
  obtain ⟨_, -, hrecord⟩ := hev.snapshot w hw
  exact sound_of_ofRecord hrecord

/-- **A configuration that passes its checks never leads to a forbidden call.** Its window may have
any tolerance, and the run that is due can be told at any moment. A run gives a report, or it names
a department without a ceiling and leaves its ledger alone; whatever the rows, the figures in a
report stay in range. -/
theorem run_never_violates (h : c.validate = .ok ()) (now : Moment) :
    (∀ w ∈ c.window, ∀ tolerance, w.target = .ok w.middle ∧ w.middle < 1440 ∧
      inWindow now { w with tolerance } =
        .ok (decide (({ w with tolerance } : ForceWindow).Covers now))) ∧
      (decideRun now c = .ok (
        if c.debug.forceAlways = true then .forced .forceAlways
        else if c.debug.bypassWindow = true then .forced .bypassWindow
        else if ∃ w ∈ c.window, w.Covers now then .forced .window
        else .threshold)) ∧
      (isSkipDay now.date c = true ↔ 5 ≤ now.date.weekday ∨ now.date ∈ c.holidays) ∧
      ∀ (b : Backend σ) (runId : String) (decision : RunDecision) (rows : List RawRow)
        (l : Ledger σ),
        (∃ department, run b c runId now decision rows l =
          (.error (.missingCeiling department), l)) ∨
        ∃ rep l', run b c runId now decision rows l = (.ok rep, l') ∧
          ∀ s ∈ rep.evaluated, s.Sound := by
  refine ⟨fun w hw tolerance => ?_, decideRun_of_valid h now, isSkipDay_iff _ _,
    fun b runId decision rows l => ?_⟩
  · have hv := Config.validate_window h hw
    obtain ⟨htarget, hlt⟩ := ForceWindow.target_of_valid hv
    exact ⟨htarget, hlt, inWindow_of_valid (w := { w with tolerance }) hv now⟩
  · cases hw : withCeilings c (intake now.toMonth rows).records with
    | error f =>
      obtain ⟨_, r, _, -, -, -, rfl⟩ := withCeilings_eq_error_iff.mp hw
      exact .inl ⟨r.department, run_of_refused hw⟩
    | ok ws =>
      obtain ⟨rep, l', hrun⟩ :=
        exists_report (b := b) (Config.ceilingFor_ne_zero h) hw runId decision l
      exact .inr ⟨rep, l', hrun, sound_of_report hrun⟩

/-- As many minutes as there can be, under the smallest ceiling and after a month with one
minute. -/
private def extreme : RunRequest :=
  let trial := RunRequest.trial 1 4294967295 .threshold
  { trial with rows := trial.rows.map fun row => { row with previousMinutes := some 1 } }

theorem run_never_violates_memory :
    extreme.config.validate = .ok () ∧
      ∃ rep l', extreme.on Backend.memory (.fresh .empty) = (.ok rep, l') ∧
        (∀ s ∈ rep.evaluated, s.Sound) ∧
        rep.evaluated.map (fun s => (s.minutes, s.ceiling, s.percentVsLast, s.remaining)) =
          [(4294967295, 1, 4294967295, -4294967294)] := by
  have hvalid : extreme.config.validate = .ok () := by decide +kernel
  have hrun : (extreme.on Backend.memory (.fresh .empty)).1.map (fun rep =>
      rep.evaluated.map fun s => (s.minutes, s.ceiling, s.percentVsLast, s.remaining)) =
      .ok [(4294967295, 1, 4294967295, -4294967294)] := by
    decide +kernel
  obtain ⟨-, -, -, hall⟩ := run_never_violates (σ := MemoryMarks) hvalid extreme.now
  refine ⟨hvalid, ?_⟩
  rcases hall Backend.memory extreme.runId extreme.decision extreme.rows (.fresh .empty) with
    ⟨department, h⟩ | ⟨rep, l', h, hsound⟩
  · rw [RunRequest.on, h] at hrun
    cases hrun
  · rw [RunRequest.on, h] at hrun
    exact ⟨rep, l', h, hsound, Except.ok.inj hrun⟩

end Planner

end OvertimeNotice
