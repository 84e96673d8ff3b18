import Mathlib.Tactic.Ring
import OvertimeNotice.Json.Writer
import OvertimeNotice.Proofs.Json.Numerals

/-!
# The texts of numbers

What is written for a whole number reads as that number. What is written for a decimal reads as its
digits, scaled: a whole decimal has a zero behind the point.

* `ofWord?_integerText`: whole numbers.
* `Decimal.numeral`: the numeral that is written for a decimal; `chars_numeral`.
* `Decimal.pointed`, `value?_numeral`: what it reads as.
-/

namespace OvertimeNotice

namespace JsonNumeral

theorem areDigits_toDigits (n : Nat) : AreDigits (Nat.toDigits 10 n) :=
  ⟨Nat.toDigits_ne_nil, fun _ => Numeral.isDigit_of_mem_natDigits⟩

theorem AreDigits.zeros {ds : List Char} (h : AreDigits ds) (k : Nat) :
    AreDigits (List.replicate k '0' ++ ds) ∧ AreDigits (ds ++ List.replicate k '0') := by
  have hzeros : ∀ c ∈ List.replicate k '0', c.isDigit = true := by
    intro c hc
    rw [List.eq_of_mem_replicate hc]
    rfl
  refine ⟨⟨by simp [h.ne_nil], fun c hc => ?_⟩, ⟨by simp [h.ne_nil], fun c hc => ?_⟩⟩
  · exact (List.mem_append.mp hc).elim (hzeros c) (h.digits c)
  · exact (List.mem_append.mp hc).elim (h.digits c) (hzeros c)

theorem AreDigits.part {ds cs : List Char} (h : AreDigits ds) (hne : cs ≠ []) (hcs : cs ⊆ ds) :
    AreDigits cs :=
  ⟨hne, fun c hc => h.digits c (hcs hc)⟩

theorem ofDigits_toDigits (n : Nat) : Numeral.ofDigits (Nat.toDigits 10 n) = n :=
  Numeral.ofDigits_natDigits n

theorem digitChar_ne_zero : ∀ n : Fin 10, n.val ≠ 0 → Nat.digitChar n ≠ '0' := by decide

/-- Digits have no zero in front. -/
theorem head?_toDigits {n : Nat} (h : n ≠ 0) : (Nat.toDigits 10 n).head? ≠ some '0' := by
  induction n using Nat.strongRecOn with
  | ind n ih =>
    by_cases hlt : n < 10
    · rw [Nat.toDigits_of_lt_base hlt]
      exact fun heq => digitChar_ne_zero ⟨n, hlt⟩ h (Option.some.inj heq)
    · rw [Nat.toDigits_of_base_le (by decide) (Nat.le_of_not_lt hlt), List.head?_append,
        Option.or_of_isSome (List.isSome_head?.mpr Nat.toDigits_ne_nil)]
      exact ih (n / 10) (by omega) (by omega)

theorem toDigits_front (n : Nat) (h : (Nat.toDigits 10 n).head? = some '0') :
    Nat.toDigits 10 n = ['0'] := by
  by_cases hn : n = 0
  · rw [hn]
    rfl
  · exact absurd h (head?_toDigits hn)

/-! ## Whole numbers -/

/-- The numeral of a whole number. -/
def ofInteger (i : Int) : JsonNumeral :=
  { negative := decide (i < 0), whole := Nat.toDigits 10 i.natAbs, fraction := []
    exponent := none }

theorem wellFormed_ofInteger (i : Int) : (ofInteger i).WellFormed where
  whole := areDigits_toDigits i.natAbs
  front := toDigits_front i.natAbs
  fraction h := absurd rfl h
  exponent _ h := nomatch h

theorem chars_ofInteger (i : Int) : (ofInteger i).chars = Json.integerText i := by
  simp [ofInteger, chars, fractionChars, exponentChars, Json.integerText]

theorem value?_ofInteger {i : Int} (hlow : -2 ^ 63 ≤ i) (hhigh : i < 2 ^ 64) :
    (ofInteger i).value? = some (.integer i) := by
  have hsig : (ofInteger i).significand = i.natAbs := by
    rw [significand, ofInteger, List.append_nil, ofDigits_toDigits]
  have hvalue := value?_integer (n := ofInteger i) rfl rfl (by rw [hsig]; omega)
    (fun hneg => by
      have : i < 0 := of_decide_eq_true hneg
      rw [hsig]
      omega)
  rw [hvalue, hsig]
  by_cases hneg : i < 0
  · have : (ofInteger i).negative = true := decide_eq_true hneg
    rw [this, if_pos rfl]
    congr 2
    omega
  · have : (ofInteger i).negative = false := decide_eq_false hneg
    rw [this]
    simp only [Bool.false_eq_true, if_false]
    congr 2
    omega

/-- The text of a whole number reads as the number. -/
theorem ofWord?_integerText {i : Int} (hlow : -2 ^ 63 ≤ i) (hhigh : i < 2 ^ 64) :
    Token.ofWord? (Json.integerText i) = some (.scalar (.number (.integer i))) := by
  rw [← chars_ofInteger]
  exact ofWord?_chars (wellFormed_ofInteger i) (value?_ofInteger hlow hhigh)

end JsonNumeral

/-! ## Decimals -/

namespace Decimal

open JsonNumeral

/-- The exponent of the leading digit. -/
def lead (d : Decimal) : Int := d.exponent + (Nat.toDigits 10 d.digits).length - 1

/-- The numeral that is written for a decimal: without an exponent where its leading digit is not
far from the point. -/
def numeral (d : Decimal) : JsonNumeral :=
  let ds := Nat.toDigits 10 d.digits
  let before := (d.lead + 1).toNat
  if -5 ≤ d.lead ∧ d.lead ≤ 15 then
    if d.lead + 1 ≤ 0 then
      ⟨false, ['0'], List.replicate (-(d.lead + 1)).toNat '0' ++ ds, none⟩
    else if ds.length ≤ before then
      ⟨false, ds ++ List.replicate (before - ds.length) '0', ['0'], none⟩
    else ⟨false, ds.take before, ds.drop before, none⟩
  else ⟨false, ds.take 1, ds.drop 1, some (decide (d.lead < 0), Nat.toDigits 10 d.lead.natAbs)⟩

theorem write_eq (d : Decimal) : NumberLayout.standard.write d =
    if -5 ≤ d.lead ∧ d.lead ≤ 15 then
      NumberLayout.standard.positional (Nat.toDigits 10 d.digits) (d.lead + 1)
    else NumberLayout.standard.scientific (Nat.toDigits 10 d.digits) d.lead := rfl

/-- The numeral of a decimal is what is written for it. -/
theorem chars_numeral (d : Decimal) : d.numeral.chars = NumberLayout.standard.write d := by
  have hds : Nat.toDigits 10 d.digits ≠ [] := Nat.toDigits_ne_nil
  rw [write_eq, numeral]
  split
  · rw [NumberLayout.positional]
    split
    · simp [chars, fractionChars, exponentChars, hds]
    · split
      · simp [chars, fractionChars, exponentChars, NumberLayout.standard]
      · rename_i hlt
        have hdrop : (Nat.toDigits 10 d.digits).drop (d.lead + 1).toNat ≠ [] := by
          rw [Ne, List.drop_eq_nil_iff]
          exact hlt
        simp [chars, fractionChars, exponentChars, hdrop]
  · have hfraction : (if (Nat.toDigits 10 d.digits).length ≤ 1 then []
        else '.' :: (Nat.toDigits 10 d.digits).drop 1) =
          fractionChars ((Nat.toDigits 10 d.digits).drop 1) := by
      simp only [fractionChars, List.drop_eq_nil_iff]
    rw [NumberLayout.scientific, hfraction]
    by_cases hneg : d.lead < 0 <;>
      simp [chars, exponentChars, NumberLayout.standard, hneg]

theorem wellFormed_numeral {d : Decimal} (h : d.digits ≠ 0) : d.numeral.WellFormed := by
  have hds := areDigits_toDigits d.digits
  have hzero := head?_toDigits h
  rw [numeral]
  generalize Nat.toDigits 10 d.digits = ds at *
  obtain ⟨c, cs, rfl⟩ := List.exists_cons_of_ne_nil hds.ne_nil
  have hc : c ≠ '0' := fun hc => hzero (congrArg some hc)
  split
  · split
    · exact ⟨⟨by simp, by simp⟩, fun _ => rfl, fun _ => (hds.zeros _).1, nofun⟩
    · split
      · exact ⟨(hds.zeros _).2, by simp [hc], fun _ => ⟨by simp, by simp⟩, nofun⟩
      · rename_i hpos _
        obtain ⟨k, hk⟩ : ∃ k, (d.lead + 1).toNat = k + 1 := ⟨d.lead.toNat, by omega⟩
        rw [hk]
        exact ⟨hds.part (by simp) (List.take_subset _ _), by simp [hc],
          fun hne => hds.part hne (List.drop_subset _ _), nofun⟩
  · refine ⟨hds.part (by simp) (List.take_subset _ _), by simp [hc],
      fun hne => hds.part hne (List.drop_subset _ _), fun e he => ?_⟩
    rw [← Option.some.inj he]
    exact areDigits_toDigits _

/-- The decimal as it is read: a whole one has a zero behind its point. -/
def pointed (d : Decimal) : Decimal :=
  if 0 ≤ d.exponent then ⟨d.digits * 10 ^ (d.exponent.toNat + 1), -1⟩ else d

/-- The numeral of a decimal below `10^16` has its digits and its exponent. -/
theorem significand_numeral {d : Decimal} (h : d.lead ≤ 15) :
    d.numeral.significand = d.pointed.digits ∧ d.numeral.power = d.pointed.exponent := by
  have hvalue := ofDigits_toDigits d.digits
  have hlength : 0 < (Nat.toDigits 10 d.digits).length :=
    List.length_pos_iff.mpr Nat.toDigits_ne_nil
  have hlead : d.lead = d.exponent + (Nat.toDigits 10 d.digits).length - 1 := rfl
  rw [numeral, pointed]
  generalize Nat.toDigits 10 d.digits = ds at *
  split
  · split
    · rw [if_neg (by omega)]
      refine ⟨?_, ?_⟩
      · rw [← hvalue]
        simp [significand, Numeral.ofDigits, Nat.ofDigitChars_append, Nat.ofDigitChars_cons]
      · simp only [power, List.length_append, List.length_replicate]
        omega
    · split
      · rw [if_pos (by omega)]
        refine ⟨?_, rfl⟩
        have hzeros : (d.lead + 1).toNat - ds.length = d.exponent.toNat := by omega
        rw [hzeros, ← hvalue]
        simp [significand, Numeral.ofDigits, Nat.ofDigitChars_append, Nat.ofDigitChars_cons]
        ring
      · rw [if_neg (by omega)]
        refine ⟨?_, ?_⟩
        · rw [significand, List.take_append_drop, hvalue]
        · simp only [power, List.length_drop]
          omega
  · rw [if_neg (by omega)]
    refine ⟨?_, ?_⟩
    · rw [significand, List.take_append_drop, hvalue]
    · have hneg : decide (d.lead < 0) = true := decide_eq_true (by omega)
      simp only [power, hneg, ofDigits_toDigits, List.length_drop]
      omega

/-- What a decimal is read as: its digits over a power of ten, each rounded. -/
def quotient (d : Decimal) : Binary64 :=
  (Binary64.ofNat d.pointed.digits).div (tenTo (-d.pointed.exponent).toNat)

theorem pointed_exponent_neg (d : Decimal) : d.pointed.exponent < 0 := by
  unfold pointed
  split
  · exact Int.negSucc_lt_zero 0
  · rename_i h
    exact Int.lt_of_not_ge h

theorem pointed_digits_lt {d : Decimal} (hlead : d.lead ≤ 15) (hdigits : d.digits ≤ 10 ^ 17) :
    d.pointed.digits ≤ 10 ^ 17 := by
  unfold pointed
  split
  · rename_i he
    have hlength : 0 < (Nat.toDigits 10 d.digits).length :=
      List.length_pos_iff.mpr Nat.toDigits_ne_nil
    have hlt : d.digits < 10 ^ (Nat.toDigits 10 d.digits).length :=
      (Nat.length_toDigits_le_iff (by decide) hlength).mp (Nat.le_refl _)
    have hsum : (Nat.toDigits 10 d.digits).length + (d.exponent.toNat + 1) ≤ 17 := by
      rw [lead] at hlead
      omega
    calc d.digits * 10 ^ (d.exponent.toNat + 1)
        ≤ 10 ^ (Nat.toDigits 10 d.digits).length * 10 ^ (d.exponent.toNat + 1) :=
          Nat.mul_le_mul_right _ (Nat.le_of_lt hlt)
      _ = 10 ^ ((Nat.toDigits 10 d.digits).length + (d.exponent.toNat + 1)) := (Nat.pow_add ..).symm
      _ ≤ 10 ^ 17 := Nat.pow_le_pow_right (by decide) hsum
  · exact hdigits

/-- The numeral of a decimal is never a whole number: it has a fraction or an exponent. -/
theorem numeral_not_whole (d : Decimal) : d.numeral.fraction ≠ [] ∨ d.numeral.exponent ≠ none := by
  have hds : Nat.toDigits 10 d.digits ≠ [] := Nat.toDigits_ne_nil
  rw [numeral]
  split
  · refine .inl ?_
    split
    · simp [hds]
    · split
      · simp
      · rename_i hlt
        rw [Ne, List.drop_eq_nil_iff]
        exact hlt
  · exact .inr (by simp)

theorem negative_numeral (d : Decimal) : d.numeral.negative = false := by
  rw [numeral]
  split
  · split
    · rfl
    · split <;> rfl
  · rfl

theorem exponent_numeral {d : Decimal} {e : Bool × List Char} (h : e ∈ d.numeral.exponent) :
    Numeral.ofDigits e.2 = d.lead.natAbs := by
  rw [numeral] at h
  split at h
  · split at h
    · exact nomatch h
    · split at h <;> exact nomatch h
  · rw [← Option.some.inj h, ofDigits_toDigits]

/-- A decimal below `10^16` is read as the quotient of its digits. -/
theorem value?_numeral {d : Decimal} (hlead : d.lead ≤ 15) (hdigits : d.digits ≤ 10 ^ 17)
    (hexponent : -308 ≤ d.exponent) : d.numeral.value? = some (.real d.quotient) := by
  obtain ⟨hsig, hpower⟩ := significand_numeral hlead
  have hlt := pointed_digits_lt hlead hdigits
  have hneg := d.pointed_exponent_neg
  have hlow : -308 ≤ d.pointed.exponent := by
    unfold pointed
    split
    · show (-308 : Int) ≤ -1
      omega
    · exact hexponent
  have hreal : d.numeral.value? =
      (scale? (Binary64.ofNat d.numeral.significand) d.numeral.power).map .real := by
    refine value?_real d.negative_numeral d.numeral_not_whole (by rw [hsig]; omega) ?_
    intro e he
    have hlength : 0 < (Nat.toDigits 10 d.digits).length :=
      List.length_pos_iff.mpr Nat.toDigits_ne_nil
    rw [exponent_numeral he]
    rw [lead] at hlead ⊢
    omega
  rw [hreal, hsig, hpower, scale?, if_pos (by rw [maxTen]; omega), if_neg (by omega), quotient]
  rfl

end Decimal

end OvertimeNotice
