import OvertimeNotice.Proofs.Plan.Percent

/-!
# Which steps minutes reach

Although a percentage is rounded, it reaches a step exactly where the minutes do by whole numbers:
a percentage that is not that of the step is too far from it to be rounded onto it. So more minutes
never reach a lower step.

* `halves_le_percentOf_iff`: a percentage against a whole number of halves.
* `ofNat_le_percentOf_iff`: a percentage against a whole number.
* `Severity.le_ofPercent_iff`: the steps that minutes reach.
* `evaluate_mono`: more minutes, or a lower ceiling, reach no lower step.
-/

namespace OvertimeNotice

open Binary64

namespace Binary64

theorem le_finite_iff {s p t q : Nat} :
    (finite false s p).le (finite false t q) = true ↔ s * 2 ^ p ≤ t * 2 ^ q := by
  have hle : (finite false s p).le (finite false t q) =
      decide ((finite false s p).units ≤ (finite false t q).units) := rfl
  rw [hle, decide_eq_true_iff, units, units]
  exact_mod_cast Iff.rfl

/-- One rounding does not bridge the gap between whole numbers. -/
theorem mul_drift_lt {a b : Nat} (h : a < b) (ha : a < 2 ^ 52) : (a : ℚ) * drift < b := by
  have ha : (a : ℚ) < 2 ^ 52 := by exact_mod_cast ha
  have hb : (a : ℚ) + 1 ≤ b := by exact_mod_cast h
  have hdrift : drift = 1 + 1 / (2 ^ 53 - 1) := by norm_num [drift]
  have hslack : (a : ℚ) * (1 / (2 ^ 53 - 1)) < 1 := by
    rw [mul_one_div, div_lt_one (by norm_num)]
    linarith
  rw [hdrift, mul_add, mul_one]
  linarith

end Binary64

variable {part whole : UInt32} {p : Nat}

/-- A percentage that is a whole number of halves is not rounded. -/
theorem two_mul_magnitude_of_eq {a : Nat} (hwhole : whole ≠ 0)
    (h : a * whole.toNat = 200 * part.toNat) :
    2 * (percentOf part whole).magnitude = a * unitsPerOne := by
  have hw := one_le_toNat hwhole
  by_cases hpart : part = 0
  · subst hpart
    obtain rfl : a = 0 := by
      rw [UInt32.toNat_zero, Nat.mul_zero] at h
      exact (Nat.mul_eq_zero.mp h).resolve_right (Nat.ne_of_gt hw)
    rw [percentOf_zero hwhole, zero, magnitude, Nat.zero_mul, Nat.zero_mul]
  · have hpos : 0 < a := by
      have hp := one_le_toNat hpart
      refine Nat.pos_of_ne_zero fun hzero => ?_
      rw [hzero, Nat.zero_mul] at h
      omega
    have hlt : a < 2 ^ 53 := by
      have := Nat.le_mul_of_pos_right a hw
      have := part.toNat_lt
      omega
    obtain ⟨s, q, -, hmul, hproduct⟩ := ofNat_mul_hundred (one_le_toNat hpart) part.toNat_lt
    obtain ⟨t, r, ht, heq, hsize⟩ := ofNat_small hw (whole.toNat_lt.trans (by decide))
    obtain ⟨u, v, hu, hhalves⟩ := exists_full_halves hpos hlt
    have hpercent : percentOf part whole = finite false u v := by
      rw [percentOf, hmul, heq, div, if_neg ht.pos.ne']
      refine ofUnits_exact hu.canonical (Nat.mul_pos ht.pos (Nat.two_pow_pos r)) ?_
      rw [hproduct, hsize]
      refine Nat.eq_of_mul_eq_mul_left Nat.two_pos ?_
      calc 2 * (part.toNat * 100 * unitsPerOne * unitsPerOne)
          = 200 * part.toNat * (unitsPerOne * unitsPerOne) := by ring
        _ = a * unitsPerOne * (whole.toNat * unitsPerOne) := by rw [← h]; ring
        _ = 2 * (u * 2 ^ v * (whole.toNat * unitsPerOne)) := by rw [← hhalves]; ring
    rw [hpercent, magnitude, hhalves]

/-- A percentage is at least a whole number of halves exactly where the minutes say so: if it is not
that number, it is too far from it to be rounded onto it. -/
theorem halves_le_percentOf_iff {a : Nat} (hwhole : whole ≠ 0) :
    a * unitsPerOne ≤ 2 * (percentOf part whole).magnitude ↔
      a * whole.toNat ≤ 200 * part.toNat := by
  have hw := one_le_toNat hwhole
  by_cases hpart : part = 0
  · subst hpart
    rw [percentOf_zero hwhole, zero, magnitude]
    simp [unitsPerOne_pos.ne', Nat.ne_of_gt hw]
  · obtain ⟨s, q, -, hpercent, hlow, hhigh⟩ := percentOf_within hpart hwhole
    have hw : (0 : ℚ) < whole.toNat := Nat.cast_pos.mpr hw
    have hunit : 0 < (unitsPerOne : ℚ) / whole.toNat := div_pos unitsPerOne_cast_pos hw
    -- the halves and the exact quotient, as fractions of the same kind
    have hhalves : (a : ℚ) * unitsPerOne =
        (a * whole.toNat : Nat) * (unitsPerOne / whole.toNat) := by
      rw [Nat.cast_mul, mul_assoc, mul_div_cancel₀ _ hw.ne']
    have hexact : (part.toNat : ℚ) * 100 * unitsPerOne / whole.toNat =
        (200 * part.toNat : Nat) * (unitsPerOne / whole.toNat) / 2 := by
      push_cast
      ring
    rw [hexact, pow_one] at hlow hhigh
    have hle : a * unitsPerOne ≤ 2 * (percentOf part whole).magnitude ↔
        (a : ℚ) * unitsPerOne ≤ 2 * size s q := by
      rw [hpercent, magnitude, size_eq]
      exact_mod_cast Iff.rfl
    have hlt := part.toNat_lt
    rcases Nat.lt_trichotomy (a * whole.toNat) (200 * part.toNat) with h | h | h
    · refine iff_of_true (hle.mpr (le_of_mul_le_mul_right ?_ drift_pos)) h.le
      have hgap := mul_lt_mul_of_pos_right (mul_drift_lt h (by omega)) hunit
      rw [hhalves]
      linarith
    · exact iff_of_true (two_mul_magnitude_of_eq hwhole h).ge h.le
    · refine iff_of_false (fun h' => ?_) (Nat.not_le.mpr h)
      have hgap := mul_lt_mul_of_pos_right (mul_drift_lt h (by omega)) hunit
      have := hle.mp h'
      rw [hhalves] at this
      linarith

/-- A percentage is at least a whole number of percent exactly where the minutes say so. -/
theorem ofNat_le_percentOf_iff (hp : 0 < p) (hp' : p ≤ 100) (hwhole : whole ≠ 0) :
    (ofNat p).le (percentOf part whole) = true ↔ p * whole.toNat ≤ 100 * part.toNat := by
  obtain ⟨u, v, hu, heq, hsize⟩ := ofNat_small hp (hp'.trans_lt (by decide))
  obtain ⟨s, q, hpercent⟩ := exists_percentOf_eq part hwhole
  have hhalves := @halves_le_percentOf_iff part whole (2 * p) hwhole
  rw [hpercent, magnitude, Nat.mul_assoc, Nat.mul_assoc, ← hsize] at hhalves
  rw [heq, hpercent, le_finite_iff]
  omega

/-! ## Steps -/

namespace Severity

variable {s t : Severity} {percent : Binary64}

theorem le_refl (s : Severity) : s ≤ s := Nat.le_refl s.rank

theorem lt_of_le_of_ne (h : s ≤ t) (hne : s ≠ t) : s < t := by
  have hrank : s.rank ≠ t.rank := by
    revert hne
    cases s <;> cases t <;> decide
  exact Nat.lt_of_le_of_ne h hrank

theorem percent_le_percent (h : s ≤ t) : s.percent?.getD 0 ≤ t.percent?.getD 0 := by
  revert h
  cases s <;> cases t <;> decide

theorem percent_bounds (h : s.percent? = some p) : 0 < p ∧ p ≤ 100 := by
  cases s <;> cases h <;> decide

theorem mem_steps : s ∈ steps ↔ s.isNotifiable = true := by
  cases s <;> decide

/-- Where a step is reached only with those below it, the highest one is above all that are. -/
theorem le_ofPercent_iff_reachedBy
    (hbelow : ∀ s t : Severity, s ≤ t → t.reachedBy percent = true → s.reachedBy percent = true) :
    s ≤ ofPercent percent ↔ s.reachedBy percent = true := by
  have hnone : s.isNotifiable ≠ true → s = none := by simp [isNotifiable]
  have hle : none ≤ ofPercent percent := Nat.zero_le _
  have hreached : none.reachedBy percent = true := rfl
  by_cases hs : s.isNotifiable = true
  case neg =>
    rw [hnone hs]
    exact iff_of_true hle hreached
  rw [ofPercent]
  cases hf : steps.find? fun s => s.reachedBy percent with
  | none =>
    have hlow : ¬s ≤ none := by
      revert hs
      cases s <;> decide
    exact iff_of_false hlow (List.find?_eq_none.mp hf s (mem_steps.mpr hs))
  | some t =>
    obtain ⟨ht, above, below, hsteps, habove⟩ := List.find?_eq_some_iff_append.mp hf
    have hsorted : steps.Pairwise fun s t => t < s := by decide
    refine ⟨fun h => hbelow s t h ht, fun h => ?_⟩
    -- the steps above `t` are not reached, and the others are not above it
    have hmem := mem_steps.mpr hs
    rw [hsteps] at hmem hsorted
    rcases List.mem_append.mp hmem with hmem | hmem
    · have := habove s hmem
      rw [h] at this
      exact nomatch this
    · rcases List.mem_cons.mp hmem with rfl | hmem
      · exact Nat.le_refl _
      · exact Nat.le_of_lt (List.rel_of_pairwise_cons (List.pairwise_append.mp hsorted).2.1 hmem)

theorem reachedBy_iff (hwhole : whole ≠ 0) : s.reachedBy (percentOf part whole) = true ↔
    s.percent?.getD 0 * whole.toNat ≤ 100 * part.toNat := by
  cases hp : s.percent? with
  | none =>
    rw [reachedBy, hp]
    simp
  | some p =>
    obtain ⟨hpos, hle⟩ := percent_bounds hp
    rw [reachedBy, hp]
    exact ofNat_le_percentOf_iff hpos hle hwhole

/-- Minutes have reached a step, or one above it, if they are its share of the ceiling. -/
theorem le_ofPercent_iff (hwhole : whole ≠ 0) : s ≤ ofPercent (percentOf part whole) ↔
    s.percent?.getD 0 * whole.toNat ≤ 100 * part.toNat := by
  rw [← reachedBy_iff hwhole]
  refine le_ofPercent_iff_reachedBy fun s t hle ht => ?_
  rw [reachedBy_iff hwhole] at ht ⊢
  exact (Nat.mul_le_mul_right _ (percent_le_percent hle)).trans ht

end Severity

theorem evaluate_eq_ok {minutes ceiling : UInt32} {e : Evaluation}
    (h : evaluate minutes ceiling = .ok e) :
    ceiling ≠ 0 ∧ e.severity = Severity.ofPercent (percentOf minutes ceiling) := by
  unfold evaluate at h
  split at h
  · exact nomatch h
  · exact ⟨‹_›, by rw [← Except.ok.inj h]⟩

/-- More minutes, or a lower ceiling, reach no lower step. -/
theorem evaluate_mono {minutes minutes' ceiling ceiling' : UInt32} {e e' : Evaluation}
    (h : evaluate minutes ceiling = .ok e) (h' : evaluate minutes' ceiling' = .ok e')
    (hminutes : minutes ≤ minutes') (hceiling : ceiling' ≤ ceiling) :
    e.severity ≤ e'.severity := by
  obtain ⟨hne, hs⟩ := evaluate_eq_ok h
  obtain ⟨hne', hs'⟩ := evaluate_eq_ok h'
  have hself := Severity.le_refl e.severity
  rw [hs, Severity.le_ofPercent_iff hne] at hself
  rw [hs, hs', Severity.le_ofPercent_iff hne']
  calc _ ≤ _ := Nat.mul_le_mul_left _ (UInt32.le_iff_toNat_le.mp hceiling)
    _ ≤ 100 * minutes.toNat := hself
    _ ≤ 100 * minutes'.toNat := Nat.mul_le_mul_left _ (UInt32.le_iff_toNat_le.mp hminutes)

end OvertimeNotice
