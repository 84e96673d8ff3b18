import OvertimeNotice.Results
import OvertimeNotice.Proofs.Plan.Reached
import OvertimeNotice.Proofs.Plan.Validated

/-!
# Figures by whole numbers

A percentage is worked out in binary64 and rounded on the way. What is reported of it is
nevertheless what whole numbers say: the step that is reached, and the percentage as a whole number.

* `Severity.percent?_ofPercent`: the step reached is the highest of those whose share was worked.
* `evaluate_highest`: the severity of minutes under a ceiling.
* `roundHalfUp_percentOf`: the whole number next to a percentage.
* `wholePercent`, `roundedPercent_exact`: the same, wherever it is reported.
-/

namespace OvertimeNotice

open Binary64

variable {part whole : UInt32}

/-! ## Steps -/

namespace Severity

theorem mem_percents_iff {p : Nat} :
    p ∈ [60, 70, 80, 90, 100] ↔ ∃ s : Severity, s.percent? = some p := by
  constructor
  · simp only [List.mem_cons, List.not_mem_nil, or_false]
    rintro (rfl | rfl | rfl | rfl | rfl)
    exacts [⟨p60, rfl⟩, ⟨p70, rfl⟩, ⟨p80, rfl⟩, ⟨p90, rfl⟩, ⟨p100, rfl⟩]
  · rintro ⟨s, hs⟩
    cases s <;> cases hs <;> decide

/-- The step reached is the highest of those whose share of the whole there is. -/
theorem percent?_ofPercent (hwhole : whole ≠ 0) : (ofPercent (percentOf part whole)).percent? =
    ([60, 70, 80, 90, 100].filter fun p => p * whole.toNat ≤ 100 * part.toNat).max? := by
  have hreach : ∀ s p, s.percent? = some p →
      (s ≤ ofPercent (percentOf part whole) ↔ p * whole.toNat ≤ 100 * part.toNat) := by
    intro s p hp
    rw [le_ofPercent_iff hwhole, hp, Option.getD_some]
  generalize ofPercent (percentOf part whole) = highest at hreach
  symm
  cases hhighest : highest.percent? with
  | none =>
    rw [List.max?_eq_none_iff, List.filter_eq_nil_iff]
    intro p hp hle
    obtain ⟨s, hs⟩ := mem_percents_iff.mp hp
    have hnone := percent_le_percent ((hreach s p hs).mpr (of_decide_eq_true hle))
    rw [hs, hhighest, Option.getD_some, Option.getD_none] at hnone
    exact absurd (percent_bounds hs).1 (Nat.not_lt.mpr hnone)
  | some q =>
    rw [List.max?_eq_some_iff]
    constructor
    · have hq := (hreach highest q hhighest).mp (le_refl highest)
      exact List.mem_filter.mpr ⟨mem_percents_iff.mpr ⟨highest, hhighest⟩, decide_eq_true hq⟩
    · intro p hp
      obtain ⟨hmem, hle⟩ := List.mem_filter.mp hp
      obtain ⟨s, hs⟩ := mem_percents_iff.mp hmem
      have hpq := percent_le_percent ((hreach s p hs).mpr (of_decide_eq_true hle))
      rwa [hs, hhighest] at hpq

theorem p100_le_iff {s : Severity} : p100 ≤ s ↔ s = p100 := by
  cases s <;> decide

/-- The last step is reached just where nothing is left. -/
theorem ofPercent_eq_p100_iff (hwhole : whole ≠ 0) :
    ofPercent (percentOf part whole) = p100 ↔ (whole.toNat : Int) - part.toNat ≤ 0 := by
  rw [← p100_le_iff, le_ofPercent_iff hwhole, percent?, Option.getD_some]
  omega

end Severity

/-- **Severities are those of exact arithmetic.** Under a ceiling that is not zero, minutes have the
highest step whose share of the ceiling they are, if there is one. So more minutes or a lower
ceiling never have a lower one, and the last step is reached just where the figures say that nothing
is left of the ceiling. -/
theorem evaluate_highest {ceiling : UInt32} (hc : ceiling ≠ 0) (minutes : UInt32) :
    ∃ e, evaluate minutes ceiling = .ok e ∧
      e.severity.percent? = ([60, 70, 80, 90, 100].filter fun p =>
        p * ceiling.toNat ≤ 100 * minutes.toNat).max? ∧
      (∀ minutes' ceiling' e', evaluate minutes' ceiling' = .ok e' → minutes ≤ minutes' →
        ceiling' ≤ ceiling → e.severity ≤ e'.severity) ∧
      ∀ r : OvertimeRecord, r.minutes = minutes → ∃ s, Snapshot.ofRecord r ceiling = .ok s ∧
        s.severity = e.severity ∧ (s.severity = .p100 ↔ s.remaining ≤ 0) := by
  obtain ⟨e, he⟩ : ∃ e, evaluate minutes ceiling = .ok e := ⟨_, by rw [evaluate, if_neg hc]⟩
  obtain ⟨-, hs⟩ := evaluate_eq_ok he
  refine ⟨e, he, ?_, fun _ _ _ he' => evaluate_mono he he', ?_⟩
  · rw [hs]
    exact Severity.percent?_ofPercent hc
  · rintro r rfl
    have hlast := @Severity.ofPercent_eq_p100_iff r.minutes ceiling hc
    rw [← hs] at hlast
    exact ⟨_, by rw [Snapshot.ofRecord, he]; rfl, rfl, hlast⟩

/-- One minute more or less about sixty percent of the longest ceiling there can be. -/
theorem evaluate_highest_extreme :
    (4294967295 : UInt32) ≠ 0 ∧
      (∃ e, evaluate 2576980377 4294967295 = .ok e ∧ e.severity.percent? = some 60) ∧
      ∃ e, evaluate 2576980376 4294967295 = .ok e ∧ e.severity.percent? = none := by
  have hc : (4294967295 : UInt32) ≠ 0 := by decide
  obtain ⟨e, he, hp, -⟩ := evaluate_highest hc 2576980377
  obtain ⟨e', he', hp', -⟩ := evaluate_highest hc 2576980376
  refine ⟨hc, ⟨e, he, hp.trans ?_⟩, e', he', hp'.trans ?_⟩
  · decide
  · decide

/-! ## Whole numbers of percent -/

/-- The whole number next to a percentage is that next to the exact quotient. -/
theorem roundHalfUp_percentOf (hwhole : whole ≠ 0) :
    roundHalfUp (percentOf part whole).magnitude unitsPerOne =
      (200 * part.toNat + whole.toNat) / (2 * whole.toNat) := by
  have hw := one_le_toNat hwhole
  refine eq_of_forall_le_iff fun n => ?_
  rw [roundHalfUp, Nat.le_div_iff_mul_le (Nat.mul_pos Nat.two_pos unitsPerOne_pos),
    Nat.le_div_iff_mul_le (Nat.mul_pos Nat.two_pos hw)]
  cases n with
  | zero => simp
  | succ n =>
    -- from here on it is a matter of `2 * n + 1` halves
    have hodd : ∀ d, (n + 1) * (2 * d) = (2 * n + 1) * d + d := fun d => by ring
    rw [hodd, hodd, Nat.add_le_add_iff_right, Nat.add_le_add_iff_right,
      halves_le_percentOf_iff hwhole]

/-- `part / whole` in percent as a whole number, a half going up and no more than the largest number
of 32 bits; zero of nothing. -/
def wholePercent (part whole : Nat) : Nat :=
  if whole = 0 then 0 else min 4294967295 ((200 * part + whole) / (2 * whole))

theorem toNat_roundedPercent_eq (part whole : UInt32) :
    (roundedPercent part whole).toNat = wholePercent part.toNat whole.toNat := by
  rw [toNat_roundedPercent, wholePercent]
  by_cases hwhole : whole = 0
  · rw [if_pos hwhole, if_pos (by rw [hwhole, UInt32.toNat_zero])]
  · rw [if_neg hwhole, if_neg (Nat.ne_of_gt (one_le_toNat hwhole)), roundHalfUp_percentOf hwhole]

/-- **Rounded percentages are those of exact arithmetic**, whatever is compared: minutes with those
of the month before, among an employee's figures, and minutes with their ceiling, where results are
kept. -/
theorem roundedPercent_exact :
    (∀ part whole : UInt32,
      (roundedPercent part whole).toNat = wholePercent part.toNat whole.toNat) ∧
    (∀ (r : OvertimeRecord) (ceiling : UInt32) (s : Snapshot),
      Snapshot.ofRecord r ceiling = .ok s → s.percentVsLast.toNat =
        wholePercent s.minutes.toNat (s.previousMinutes.elim 0 UInt32.toNat)) ∧
    ∀ s : Snapshot, (ResultRow.ofSnapshot s).percentTarget.toNat =
      wholePercent s.minutes.toNat s.ceiling.toNat := by
  refine ⟨toNat_roundedPercent_eq, fun r ceiling s h => ?_, fun s => toNat_roundedPercent_eq _ _⟩
  obtain ⟨e, -, rfl⟩ := Snapshot.ofRecord_eq_ok h
  rw [toNat_roundedPercent_eq]
  cases r.previousMinutes with
  | none => rfl
  | some n => rfl

/-- Minutes that are by the least part fewer than five and a half percent of those of the month
before. -/
private def belowHalf : OvertimeRecord :=
  { employee := "1001", name := "Ann", department := "300", identity := none
    month := Moment.trial.toMonth, minutes := 236223201, previousMinutes := some 4294967291 }

/-- Under a ceiling of one minute the percentage is cut off. -/
theorem roundedPercent_exact_below_half :
    ∃ s, Snapshot.ofRecord belowHalf 1 = .ok s ∧ s.percentVsLast.toNat = 5 ∧
      (ResultRow.ofSnapshot s).percentTarget.toNat = 4294967295 := by
  obtain ⟨-, hprevious, htarget⟩ := roundedPercent_exact
  obtain ⟨s, hs⟩ : ∃ s, Snapshot.ofRecord belowHalf 1 = .ok s :=
    ⟨_, by rw [Snapshot.ofRecord, evaluate, if_neg (by decide)]; rfl⟩
  have hlast := hprevious belowHalf 1 s hs
  have hceiling := htarget s
  obtain ⟨e, -, rfl⟩ := Snapshot.ofRecord_eq_ok hs
  have hbelow : wholePercent 236223201 4294967291 = 5 := by decide
  have hcut : wholePercent 236223201 1 = 4294967295 := by decide
  exact ⟨_, hs, hlast.trans hbelow, hceiling.trans hcut⟩

end OvertimeNotice
