import OvertimeNotice.Plan.Report
import OvertimeNotice.Proofs.Json.Rereading

/-!
# The range of percentages

A percentage is zero, or it is far from the ends of the range of numbers: its minutes times a
hundred are not rounded, and the quotient is rounded once.

* `percentOf_zero`, `percentOf_within`: the percentage of a ceiling.
* `percentOf_moderate`: its range.
* `Snapshot.moderate_percent`: the percentage among an employee's figures.
-/

namespace OvertimeNotice

open Binary64

/-- Minutes times a hundred are not rounded. -/
theorem ofNat_mul_hundred {n : Nat} (hn : 0 < n) (h : n < 2 ^ 32) :
    ∃ s p, Full s p ∧ (ofNat n).mul (ofNat 100) = finite false s p ∧
      s * 2 ^ p = n * 100 * unitsPerOne := by
  have hlt : n * 100 < 2 ^ 53 := by omega
  obtain ⟨s₁, p₁, -, heq₁, hsize₁⟩ := ofNat_small hn (h.trans (by decide))
  obtain ⟨s₂, p₂, -, heq₂, hsize₂⟩ := ofNat_small (n := 100) (by decide) (by decide)
  obtain ⟨s, p, hfull, -, hsize⟩ := ofNat_small (Nat.mul_pos hn (by decide)) hlt
  refine ⟨s, p, hfull, ?_, hsize⟩
  rw [heq₁, heq₂, mul, hsize₁, hsize₂]
  exact ofUnits_exact hfull.canonical unitsPerOne_pos (by rw [hsize]; ring)

section

variable {part whole : UInt32}

theorem one_le_toNat (h : whole ≠ 0) : 1 ≤ whole.toNat :=
  Nat.pos_of_ne_zero fun hzero => h (UInt32.toNat_inj.mp hzero)

/-- The range of a number of minutes that is not zero. -/
theorem minutes_bounds (h : whole ≠ 0) :
    1 ≤ (whole.toNat : ℚ) ∧ (whole.toNat : ℚ) ≤ 2 ^ 32 := by
  have hlow := one_le_toNat h
  have hhigh := whole.toNat_lt.le
  exact ⟨by exact_mod_cast hlow, by exact_mod_cast hhigh⟩

/-- A percentage of no minutes is zero. -/
theorem percentOf_zero (h : whole ≠ 0) : percentOf 0 whole = zero := by
  obtain ⟨t, q, hq, heq, -⟩ := ofNat_small (one_le_toNat h) (whole.toNat_lt.trans (by decide))
  obtain ⟨s, p, -, hhundred, -⟩ := ofNat_small (n := 100) (by decide) (by decide)
  rw [percentOf, UInt32.toNat_zero, ofNat_zero, hhundred, zero_mul_finite, heq,
    zero_div_finite hq.pos]

/-- Any other percentage is its exact quotient, rounded once. -/
theorem percentOf_within (hpart : part ≠ 0) (hwhole : whole ≠ 0) :
    ∃ s p, Full s p ∧ percentOf part whole = finite false s p ∧
      Within 1 (size s p) (part.toNat * 100 * unitsPerOne / whole.toNat) := by
  obtain ⟨s, p, -, hmul, hproduct⟩ := ofNat_mul_hundred (one_le_toNat hpart) part.toNat_lt
  obtain ⟨t, q, hq, heq, hsize⟩ :=
    ofNat_small (one_le_toNat hwhole) (whole.toNat_lt.trans (by decide))
  have hproduct' : size s p = part.toNat * 100 * unitsPerOne := by
    rw [size_eq, hproduct]
    push_cast
    rfl
  have hsize' : size t q = whole.toNat * unitsPerOne := by
    rw [size_eq, hsize]
    push_cast
    rfl
  have hunits := unitsPerOne_cast_pos
  obtain ⟨ha, ha'⟩ := minutes_bounds hpart
  obtain ⟨hc, hc'⟩ := minutes_bounds hwhole
  have ha := mul_le_mul_of_nonneg_right ha hunits.le
  have ha' := mul_le_mul_of_nonneg_right ha' hunits.le
  have hc := mul_le_mul_of_nonneg_right hc hunits.le
  have hc' := mul_le_mul_of_nonneg_right hc' hunits.le
  obtain ⟨s', p', hfull, heq', hwithin⟩ := div_within (s := s) (p := p) hq
    (by rw [hproduct', hsize']; linarith) (by rw [hproduct', hsize']; linarith)
  rw [hproduct', hsize', mul_div_mul_right _ _ hunits.ne'] at hwithin
  exact ⟨s', p', hfull, by rw [percentOf, heq, hmul, heq'], hwithin⟩

theorem percentOf_moderate (part : UInt32) (h : whole ≠ 0) : (percentOf part whole).Moderate := by
  by_cases hpart : part = 0
  · rw [hpart, percentOf_zero h]
    exact .zero
  · obtain ⟨s, p, hfull, heq, hwithin⟩ := percentOf_within hpart h
    have hunits := unitsPerOne_cast_pos
    obtain ⟨ha, ha'⟩ := minutes_bounds hpart
    obtain ⟨hc, hc'⟩ := minutes_bounds h
    have ha := mul_le_mul_of_nonneg_right ha hunits.le
    have ha' := mul_le_mul_of_nonneg_right ha' hunits.le
    -- the exact quotient lies well inside the range
    have hlow : 1 * 100 * unitsPerOne / 2 ^ 32 ≤
        (part.toNat : ℚ) * 100 * unitsPerOne / whole.toNat :=
      div_le_div₀ (by linarith) (by linarith) (by linarith) hc'
    have hhigh : (part.toNat : ℚ) * 100 * unitsPerOne / whole.toNat ≤
        2 ^ 32 * 100 * unitsPerOne / 1 :=
      div_le_div₀ (by linarith) (by linarith) (by norm_num) hc
    obtain ⟨hle, hge⟩ := hwithin.le_two_mul (by linarith) hfull.size_pos.le
    rw [heq]
    refine .inRange ⟨hfull, ?_, ?_⟩
    · have : (unitsPerOne : ℚ) ≤ size s p * 2 ^ 30 := by linarith
      rw [size_eq] at this
      exact_mod_cast this
    · have : size s p ≤ 2 ^ 40 * (unitsPerOne : ℚ) := by linarith
      rw [size_eq] at this
      exact_mod_cast this

theorem exists_percentOf_eq (part : UInt32) (h : whole ≠ 0) :
    ∃ s p, percentOf part whole = finite false s p := by
  have hmoderate := percentOf_moderate part h
  generalize percentOf part whole = x at hmoderate
  cases hmoderate with
  | zero => exact ⟨0, 0, rfl⟩
  | inRange => exact ⟨_, _, rfl⟩

end

/-- The percentage among an employee's figures. -/
theorem Snapshot.moderate_percent {r : OvertimeRecord} {ceiling : UInt32} {s : Snapshot}
    (h : Snapshot.ofRecord r ceiling = .ok s) : s.percent.Moderate := by
  obtain ⟨e, he, rfl⟩ := Snapshot.ofRecord_eq_ok h
  rw [evaluate] at he
  split at he
  · exact nomatch he
  · rename_i hne
    rw [← Except.ok.inj he]
    exact percentOf_moderate r.minutes hne

end OvertimeNotice
