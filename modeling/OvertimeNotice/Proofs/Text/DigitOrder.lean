import Mathlib.Tactic.Ring
import OvertimeNotice.Text.Numeral

/-!
# The order of digits

Texts are compared from their first character on. So texts that begin with decimal digits are in
the order of the fractions with these decimals, however many digits there are. Of two writings of
one fraction the shorter comes first, and only after digits of one width does the rest count.

* `Numeral.ofDigits_cons`, `Numeral.ofDigits_lt`: the number of digits, and its bound.
* `Numeral.digits_lt_digits`: the order of digits of any widths.
-/

namespace OvertimeNotice

namespace Numeral

/-! ## Numbers of digits -/

/-- The number of one digit. -/
def digit (c : Char) : Nat := c.toNat - '0'.toNat

theorem ofDigits_cons (c : Char) (cs : List Char) :
    ofDigits (c :: cs) = digit c * 10 ^ cs.length + ofDigits cs := by
  rw [ofDigits, ofDigits, Nat.ofDigitChars_cons, Nat.ofDigitChars_eq_ofDigitChars_zero, digit]
  ring

theorem digit_lt {c : Char} (h : c.isDigit = true) : digit c < 10 := by
  have hc := Char.isDigit_iff_toNat.mp h
  have h₀ : '0'.toNat = 48 := rfl
  have h₉ : '9'.toNat = 57 := rfl
  simp only [digit]
  omega

theorem digit_lt_digit {c d : Char} (hc : c.isDigit = true) (hd : d.isDigit = true) :
    digit c < digit d ↔ c < d := by
  have hc := (Char.isDigit_iff_toNat.mp hc).1
  have hd := (Char.isDigit_iff_toNat.mp hd).1
  have hlt : c < d ↔ c.toNat < d.toNat := Iff.rfl
  simp only [digit, hlt]
  omega

theorem digit_inj {c d : Char} (hc : c.isDigit = true) (hd : d.isDigit = true) :
    digit c = digit d ↔ c = d := by
  have hc := (Char.isDigit_iff_toNat.mp hc).1
  have hd := (Char.isDigit_iff_toNat.mp hd).1
  rw [← Char.toNat_inj]
  simp only [digit]
  omega

variable {xs ys us vs : List Char}

theorem ofDigits_lt (h : ∀ c ∈ xs, c.isDigit = true) : ofDigits xs < 10 ^ xs.length := by
  induction xs with
  | nil => decide
  | cons x xs ih =>
    obtain ⟨hx, hxs⟩ := List.forall_mem_cons.mp h
    have hle : (digit x + 1) * 10 ^ xs.length ≤ 10 * 10 ^ xs.length :=
      Nat.mul_le_mul_right _ (digit_lt hx)
    have hlt := ih hxs
    rw [ofDigits_cons, List.length_cons, Nat.pow_succ']
    rw [Nat.add_mul] at hle
    omega

/-! ## The order -/

/-- Numbers of a leading digit and a rest below one unit of it are ordered by the digit first. -/
private theorem lead_lt_iff {a b A B T : Nat} (hA : A < T) (hB : B < T) :
    (a * T + A < b * T + B ↔ a < b ∨ a = b ∧ A < B) ∧
      (a * T + A = b * T + B ↔ a = b ∧ A = B) := by
  rcases Nat.lt_trichotomy a b with h | rfl | h
  · have := Nat.mul_le_mul_right T h
    rw [Nat.succ_mul] at this
    omega
  · omega
  · have := Nat.mul_le_mul_right T h
    rw [Nat.succ_mul] at this
    omega

/-- What follows digits: nothing, or a character before every digit. -/
def EndsDigits (us : List Char) : Prop := ∀ c ∈ us.head?, c < '0'

/-- A text without digits comes before one that begins with a digit. -/
theorem EndsDigits.lt_cons (h : EndsDigits us) {y : Char} (hy : y.isDigit = true)
    (ys : List Char) : us < y :: ys := by
  cases us with
  | nil => exact List.nil_lt_cons ..
  | cons u us =>
    have hu : u.toNat < '0'.toNat := h u rfl
    exact List.cons_lt_cons_iff.mpr (.inl (hu.trans_le (Char.isDigit_iff_toNat.mp hy).1))

/-- Digits, and what follows them, are in the order of the fractions with these decimals, the
shorter writing of a fraction first, and after that in the order of what follows. -/
theorem digits_lt_digits (hx : ∀ c ∈ xs, c.isDigit = true) (hy : ∀ c ∈ ys, c.isDigit = true)
    (hu : EndsDigits us) (hv : EndsDigits vs) : xs ++ us < ys ++ vs ↔
      ofDigits xs * 10 ^ ys.length < ofDigits ys * 10 ^ xs.length ∨
        ofDigits xs * 10 ^ ys.length = ofDigits ys * 10 ^ xs.length ∧
          (xs.length < ys.length ∨ xs.length = ys.length ∧ us < vs) := by
  induction xs generalizing ys with
  | nil =>
    have hzero : ofDigits [] = 0 := rfl
    cases ys with
    | nil => simp
    | cons y ys =>
      have hlt := hu.lt_cons (hy y (.head _)) (ys ++ vs)
      simp only [List.nil_append, List.cons_append, hlt, hzero, List.length_cons, List.length_nil,
        true_iff]
      omega
  | cons x xs ih =>
    obtain ⟨hx₀, hx⟩ := List.forall_mem_cons.mp hx
    cases ys with
    | nil =>
      have hlt := List.lt_asymm (hv.lt_cons hx₀ (xs ++ us))
      have hzero : ofDigits [] = 0 := rfl
      simp only [List.nil_append, List.cons_append, hlt, hzero, List.length_cons, List.length_nil,
        false_iff]
      omega
    | cons y ys =>
      obtain ⟨hy₀, hy⟩ := List.forall_mem_cons.mp hy
      -- Both sides have a common unit, and the rests stay below it.
      have hX : ofDigits xs * 10 ^ ys.length < 10 ^ xs.length * 10 ^ ys.length :=
        Nat.mul_lt_mul_of_pos_right (ofDigits_lt hx) (Nat.pow_pos (by decide))
      have hY : ofDigits ys * 10 ^ xs.length < 10 ^ xs.length * 10 ^ ys.length := by
        rw [Nat.mul_comm (10 ^ xs.length)]
        exact Nat.mul_lt_mul_of_pos_right (ofDigits_lt hy) (Nat.pow_pos (by decide))
      have hleft : ofDigits (x :: xs) * 10 ^ (ys.length + 1) =
          10 * (digit x * (10 ^ xs.length * 10 ^ ys.length) + ofDigits xs * 10 ^ ys.length) := by
        rw [ofDigits_cons]
        ring
      have hright : ofDigits (y :: ys) * 10 ^ (xs.length + 1) =
          10 * (digit y * (10 ^ xs.length * 10 ^ ys.length) + ofDigits ys * 10 ^ xs.length) := by
        rw [ofDigits_cons]
        ring
      obtain ⟨hlt, heq⟩ := lead_lt_iff (a := digit x) (b := digit y) hX hY
      rw [List.cons_append, List.cons_append, List.cons_lt_cons_iff, ih hx hy,
        ← digit_lt_digit hx₀ hy₀, ← digit_inj hx₀ hy₀, List.length_cons, List.length_cons, hleft,
        hright, Nat.mul_lt_mul_left (by decide), Nat.mul_right_inj (by decide), hlt, heq,
        Nat.add_lt_add_iff_right, Nat.add_right_cancel_iff, and_or_left, or_assoc, and_assoc]

end Numeral

end OvertimeNotice
