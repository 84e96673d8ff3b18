import Mathlib.Data.Nat.Digits.Defs
import OvertimeNotice.Json.Token
import OvertimeNotice.Text.Numeral

/-!
# Reading numerals

A numeral is read from its own characters, and what it denotes follows from its digits: those before
and after the point are taken together, and the power of ten is what is left of the exponent.

* `JsonNumeral.chars`, `JsonNumeral.WellFormed`: the characters of a numeral.
* `parse?_chars`: they are read as the numeral.
* `absorb_eq`: digits of a number below `2^64` are taken whole.
* `value?_integer`, `value?_real`: what a numeral denotes.
-/

namespace OvertimeNotice

namespace JsonNumeral

/-- The characters of an exponent, which carries its sign. -/
def exponentChars : Option (Bool × List Char) → List Char
  | none => []
  | some (negative, ds) => 'e' :: (if negative then '-' else '+') :: ds

/-- The characters of a fraction. -/
def fractionChars (fraction : List Char) : List Char :=
  if fraction = [] then [] else '.' :: fraction

/-- The characters of a numeral. -/
def chars (n : JsonNumeral) : List Char :=
  (if n.negative then ['-'] else []) ++
    (n.whole ++ (fractionChars n.fraction ++ exponentChars n.exponent))

/-- One digit or more and nothing else. -/
structure AreDigits (cs : List Char) : Prop where
  ne_nil : cs ≠ []
  digits : ∀ c ∈ cs, c.isDigit = true

/-- The parts of the numeral are digits, and none of them is a zero that need not be written in
front. -/
structure WellFormed (n : JsonNumeral) : Prop where
  whole : AreDigits n.whole
  front : n.whole.head? = some '0' → n.whole = ['0']
  fraction : n.fraction ≠ [] → AreDigits n.fraction
  exponent : ∀ e ∈ n.exponent, AreDigits e.2

/-! ## Reading the parts -/

/-- No digit follows. -/
def EndsDigits (cs : List Char) : Prop := ∀ c ∈ cs.head?, c.isDigit = false

theorem endsDigits_nil : EndsDigits [] := by simp [EndsDigits]

theorem endsDigits_cons {c : Char} {cs : List Char} (h : c.isDigit = false) :
    EndsDigits (c :: cs) := by
  simp [EndsDigits, h]

theorem digits?_append {ds cs : List Char} (hd : AreDigits ds) (hc : EndsDigits cs) :
    digits? (ds ++ cs) = some (ds, cs) := by
  have htake : (ds ++ cs).takeWhile Char.isDigit = ds := by
    rw [List.takeWhile_append_of_pos hd.digits]
    cases cs with
    | nil => simp
    | cons c cs => simp [hc c rfl]
  have hdrop : (ds ++ cs).dropWhile Char.isDigit = cs := by
    rw [List.dropWhile_append_of_pos hd.digits]
    cases cs with
    | nil => rfl
    | cons c cs => simp [hc c rfl]
  rw [digits?, htake, hdrop]
  cases ds with
  | nil => exact absurd rfl hd.ne_nil
  | cons d ds => rfl

theorem digits?_self {ds : List Char} (hd : AreDigits ds) : digits? ds = some (ds, []) := by
  simpa using digits?_append hd endsDigits_nil

theorem exponent?_chars {e : Option (Bool × List Char)} (h : ∀ x ∈ e, AreDigits x.2) :
    exponent? (exponentChars e) = some e := by
  cases e with
  | none => rfl
  | some e =>
    obtain ⟨negative, ds⟩ := e
    have hds := digits?_self (h _ rfl)
    cases negative <;> simp [exponentChars, exponent?, hds]

theorem endsDigits_exponentChars (e : Option (Bool × List Char)) :
    EndsDigits (exponentChars e) := by
  cases e with
  | none => exact endsDigits_nil
  | some e => exact endsDigits_cons (by decide)

theorem fraction?_chars {fraction cs : List Char} (h : fraction ≠ [] → AreDigits fraction)
    (hc : EndsDigits cs) (hp : cs.head? ≠ some '.') :
    fraction? (fractionChars fraction ++ cs) = some (fraction, cs) := by
  unfold fractionChars
  split
  · subst_vars
    simp [fraction?, hp]
  · rename_i hne
    simp [fraction?, digits?_append (h hne) hc]

variable {n : JsonNumeral}

/-- A numeral is read from its characters. -/
theorem parse?_chars (h : n.WellFormed) : parse? n.chars = some n := by
  obtain ⟨negative, whole, fraction, exponent⟩ := n
  obtain ⟨hw, hfront, hf, he⟩ := h
  simp only at hw hfront hf he
  have hends : EndsDigits (fractionChars fraction ++ exponentChars exponent) := by
    unfold fractionChars
    split
    · exact endsDigits_exponentChars exponent
    · exact endsDigits_cons (by decide)
  have hpoint : (exponentChars exponent).head? ≠ some '.' := by
    cases exponent <;> simp [exponentChars]
  have hfraction := fraction?_chars hf (endsDigits_exponentChars exponent) hpoint
  cases whole with
  | nil => exact absurd rfl hw.ne_nil
  | cons d ds =>
    have hminus : d ≠ '-' := by
      rintro rfl
      exact absurd (hw.digits _ List.mem_cons_self) (by decide)
    have hzero : ¬(d = '0' ∧ d :: ds ≠ ['0']) :=
      fun hz => hz.2 (hfront (congrArg some hz.1))
    have hdigits := digits?_append hw hends
    rw [List.cons_append] at hdigits
    cases negative <;>
      simp only [parse?, chars, List.cons_append, List.nil_append, List.head?_cons, List.tail_cons,
        Option.some.injEq, hminus, decide_false, decide_true, if_true, if_false,
        Bool.false_eq_true, hdigits, Option.bind_eq_bind, Option.bind_some, hzero, hfraction,
        exponent?_chars he] <;> rfl

/-- A numeral is a word. -/
theorem isWordChar_of_mem_chars (h : n.WellFormed) {c : Char} (hc : c ∈ n.chars) :
    Token.isWordChar c = true := by
  have hdigit : ∀ {cs : List Char}, AreDigits cs → ∀ c ∈ cs, Token.isWordChar c = true := by
    intro cs hd c hc
    simp [Token.isWordChar, hd.digits c hc]
  rw [chars, List.mem_append, List.mem_append, List.mem_append] at hc
  rcases hc with hc | hc | hc | hc
  · split at hc
    · rw [List.mem_singleton.mp hc]
      decide
    · exact nomatch hc
  · exact hdigit h.whole c hc
  · unfold fractionChars at hc
    split at hc
    · exact nomatch hc
    · rename_i hne
      rcases List.mem_cons.mp hc with rfl | hc
      · decide
      · exact hdigit (h.fraction hne) c hc
  · cases he : n.exponent with
    | none =>
      rw [he] at hc
      exact nomatch hc
    | some e =>
      rw [he] at hc
      rcases List.mem_cons.mp hc with rfl | hc
      · decide
      · rcases List.mem_cons.mp hc with rfl | hc
        · split <;> decide
        · exact hdigit (h.exponent e he) c hc

theorem ofWord?_chars (h : n.WellFormed) {v : Number} (hv : n.value? = some v) :
    Token.ofWord? n.chars = some (.scalar (.number v)) := by
  -- the first character tells a numeral from the three names
  have hhead : ∀ c ∈ n.chars.head?, c.isDigit = true ∨ c = '-' := by
    intro c hc
    rw [chars] at hc
    split at hc
    · exact .inr (Option.some.inj hc).symm
    · obtain ⟨d, ds, hw⟩ := List.exists_cons_of_ne_nil h.whole.ne_nil
      rw [hw] at hc
      obtain rfl : d = c := Option.some.inj hc
      exact .inl (h.whole.digits d (hw ▸ List.mem_cons_self))
  have hne : ∀ c cs, c.isDigit = false → c ≠ '-' → n.chars ≠ c :: cs := by
    intro c cs hdigit hminus heq
    rcases hhead c (by rw [heq]; rfl) with hc | hc
    · rw [hdigit] at hc
      exact nomatch hc
    · exact hminus hc
  rw [Token.ofWord?, if_neg (hne _ _ (by decide) (by decide)),
    if_neg (hne _ _ (by decide) (by decide)), if_neg (hne _ _ (by decide) (by decide)),
    parse?_chars h, Option.map_some, hv]

/-! ## What numerals denote -/

theorem le_ofDigitChars (cs : List Char) (init : Nat) : init ≤ Nat.ofDigitChars 10 cs init := by
  induction cs generalizing init with
  | nil => exact Nat.le_refl _
  | cons c cs ih =>
    rw [Nat.ofDigitChars_cons]
    exact Nat.le_trans (by omega) (ih _)

/-- Digits of a number that fits 64 bits are taken whole. -/
theorem absorb_eq {cs : List Char} {sig : Nat} (h : Nat.ofDigitChars 10 cs sig < 2 ^ 64) :
    absorb sig cs = (Nat.ofDigitChars 10 cs sig, []) := by
  induction cs generalizing sig with
  | nil => rfl
  | cons c cs ih =>
    rw [Nat.ofDigitChars_cons] at h ⊢
    have hfits := Nat.lt_of_le_of_lt (le_ofDigitChars cs _) h
    have hdigit : sig * 10 + digit c = 10 * sig + (c.toNat - '0'.toNat) := by
      rw [digit, Nat.mul_comm]
    rw [absorb, hdigit, if_pos hfits, ih h]

/-- The digits of a numeral without its point. -/
def significand (n : JsonNumeral) : Nat := Numeral.ofDigits (n.whole ++ n.fraction)

/-- The power of ten that its significand is to be multiplied by. -/
def power (n : JsonNumeral) : Int :=
  match n.exponent with
  | none => -n.fraction.length
  | some (true, ds) => -n.fraction.length - Numeral.ofDigits ds
  | some (false, ds) => -n.fraction.length + Numeral.ofDigits ds

theorem significand_eq (n : JsonNumeral) :
    n.significand = Nat.ofDigitChars 10 n.fraction (Numeral.ofDigits n.whole) := by
  rw [significand, Numeral.ofDigits, Nat.ofDigitChars_append]
  rfl

theorem absorb_whole (h : n.significand < 2 ^ 64) :
    absorb 0 n.whole = (Numeral.ofDigits n.whole, []) := by
  rw [significand_eq] at h
  exact absorb_eq (Nat.lt_of_le_of_lt (le_ofDigitChars n.fraction _) h)

theorem absorb_fraction (h : n.significand < 2 ^ 64) :
    absorb (Numeral.ofDigits n.whole) n.fraction = (n.significand, []) := by
  rw [significand_eq] at h ⊢
  exact absorb_eq h

/-- A numeral without point and exponent is a whole number. -/
theorem value?_integer (hf : n.fraction = []) (he : n.exponent = none)
    (hs : n.significand < 2 ^ 64)
    (hneg : n.negative = true → n.significand ≠ 0 ∧ n.significand ≤ 2 ^ 63) :
    n.value? = some (.integer (if n.negative then -n.significand else n.significand)) := by
  have hsig : Numeral.ofDigits n.whole = n.significand := by
    rw [significand, hf, List.append_nil]
  rw [value?, absorb_whole hs, hsig]
  simp only [hf, he]
  cases hn : n.negative with
  | false => rfl
  | true =>
    obtain ⟨hne, hle⟩ := hneg hn
    rw [if_pos rfl, if_neg (by omega), if_pos rfl]

/-- Any other numeral is its significand, scaled. -/
theorem value?_real (hneg : n.negative = false) (hf : n.fraction ≠ [] ∨ n.exponent ≠ none)
    (hs : n.significand < 2 ^ 64) (he : ∀ e ∈ n.exponent, Numeral.ofDigits e.2 ≤ 2147483647) :
    n.value? = (scale? (Binary64.ofNat n.significand) n.power).map .real := by
  have hfraction := absorb_fraction hs
  rw [value?, absorb_whole hs]
  simp only [hneg]
  split
  · rename_i hf' he' _
    exact absurd (hf.resolve_left fun h => h hf') fun h => h he'
  · simp only [hfraction, List.length_nil, Nat.sub_zero, Nat.cast_zero, zero_sub]
    cases hexp : n.exponent with
    | none =>
      simp only [power, hexp]
      rfl
    | some e =>
      obtain ⟨below, ds⟩ := e
      have hle : Nat.ofDigitChars 10 ds 0 ≤ 2147483647 := he _ hexp
      simp only [if_pos hle, power, hexp]
      cases below <;> rfl

end JsonNumeral

end OvertimeNotice
