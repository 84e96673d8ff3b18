import Mathlib.Order.Basic

/-!
# The order of texts is the order of their bytes

Texts are compared character by character. UTF-8 is made so that this comes to the same as comparing
their bytes: where two characters differ, the first byte that differs is that of the smaller one.

* `Text.encode_lt`: two characters, whatever follows them.
* `Text.bytes_lt_of_lt`: two texts.
-/

namespace OvertimeNotice

namespace Text

theorem byte_cons_lt {a b : Nat} (ha : a < 256) (hb : b < 256) {x y : List UInt8} :
    UInt8.ofNat a :: x < UInt8.ofNat b :: y ↔ a < b ∨ a = b ∧ x < y := by
  rw [List.cons_lt_cons_iff, UInt8.lt_iff_toNat_lt, ← UInt8.toNat_inj, UInt8.toNat_ofNat',
    UInt8.toNat_ofNat', Nat.mod_eq_of_lt ha, Nat.mod_eq_of_lt hb]

/-- Of two numbers the smaller one has less before its last six bits, or in them. -/
theorem sixBits_lt {v w : Nat} (h : v < w) :
    v / 64 < w / 64 ∨ v / 64 = w / 64 ∧ v % 64 < w % 64 := by
  omega

/-- The bytes of two characters differ in the order of the characters, before either ends. -/
theorem encode_lt {c d : Char} (h : c < d) (x y : List UInt8) :
    String.utf8EncodeChar c ++ x < String.utf8EncodeChar d ++ y := by
  have hlt : c.val.toNat < d.val.toNat := h
  have hd : d.val.toNat < 1114112 := by
    rcases d.valid with h | h
    · exact Nat.lt_trans h (by decide)
    · exact h.2
  unfold String.utf8EncodeChar
  generalize d.val.toNat = w at hlt hd
  generalize c.val.toNat = v at hlt
  have hdiv : ∀ n : Nat, n / 4096 = n / 64 / 64 ∧ n / 262144 = n / 64 / 64 / 64 := fun n => by
    simp only [Nat.div_div_eq_div_mul, and_self]
  have hv : v / 64 / 64 / 64 % 8 = v / 64 / 64 / 64 := by omega
  have hw : w / 64 / 64 / 64 % 8 = w / 64 / 64 / 64 := by omega
  simp only [hdiv, hv, hw]
  have hlast := sixBits_lt hlt
  have hmiddle := @sixBits_lt (v / 64) (w / 64)
  have hfirst := @sixBits_lt (v / 64 / 64) (w / 64 / 64)
  -- one case for the numbers of bytes of either character
  split_ifs <;>
    simp (disch := omega) only [List.cons_append, List.nil_append, byte_cons_lt] <;> omega

theorem encode_lt_of_lt {l m : List Char} (h : l < m) :
    l.flatMap String.utf8EncodeChar < m.flatMap String.utf8EncodeChar := by
  induction h with
  | @nil c =>
    rw [List.flatMap_cons]
    cases hc : String.utf8EncodeChar c with
    | nil => exact absurd hc String.utf8EncodeChar_ne_nil
    | cons b bs => exact List.Lex.nil
  | rel h => exact encode_lt h _ _
  | cons _ ih => exact List.append_left_lt ih

/-- The bytes of a text. -/
def bytes (s : String) : List UInt8 := s.toUTF8.data.toList

theorem bytes_eq (s : String) : bytes s = s.toList.flatMap String.utf8EncodeChar := by
  have h : s.toUTF8 = (s.toList.flatMap String.utf8EncodeChar).toByteArray := by
    rw [String.toUTF8_eq_toByteArray]
    exact String.utf8Encode_toList.symm
  rw [bytes, h, List.data_toByteArray]

theorem bytes_lt_of_lt {a b : String} (h : a < b) : bytes a < bytes b := by
  rw [bytes_eq, bytes_eq]
  exact encode_lt_of_lt h

end Text

end OvertimeNotice
