/-!
# Blank characters

The characters of the Unicode property White_Space, and texts without them at either end.

* `head?_dropBlanks`: what is left after dropping starts with no blank character.
* `trim_trim`: a trimmed text is as trimming leaves it.
-/

namespace OvertimeNotice

namespace Text

/-- The ranges of the Unicode property White_Space, both ends included. -/
def blankRanges : List (Nat × Nat) :=
  [(0x09, 0x0D), (0x20, 0x20), (0x85, 0x85), (0xA0, 0xA0), (0x1680, 0x1680), (0x2000, 0x200A),
    (0x2028, 0x2029), (0x202F, 0x202F), (0x205F, 0x205F), (0x3000, 0x3000)]

/-- `c` has the Unicode property White_Space. -/
def isBlank (c : Char) : Bool :=
  blankRanges.any fun r => decide (r.1 ≤ c.toNat) && decide (c.toNat ≤ r.2)

/-- The characters after the leading blank ones. -/
def dropBlanks (cs : List Char) : List Char := cs.dropWhile isBlank

/-- The characters without the blank ones at either end. -/
def trimChars (cs : List Char) : List Char := (dropBlanks (dropBlanks cs).reverse).reverse

/-- The text without the blank characters at either end. -/
def trim (s : String) : String := String.ofList (trimChars s.toList)

/-! ## What trimming keeps -/

theorem dropBlanks_eq_self_iff {cs : List Char} :
    dropBlanks cs = cs ↔ ∀ c, cs.head? = some c → isBlank c = false := by
  cases cs with
  | nil => simp [dropBlanks]
  | cons a l =>
    by_cases h : isBlank a = true
    · simp only [dropBlanks, List.dropWhile_cons, h, if_true, List.head?_cons, Option.some.injEq,
        forall_eq', Bool.true_eq_false, iff_false]
      intro heq
      have hle : (l.dropWhile isBlank).length ≤ l.length :=
        (List.dropWhile_sublist isBlank).length_le
      have hlen := congrArg List.length heq
      rw [List.length_cons] at hlen
      omega
    · simp [dropBlanks, h]

/-- The first character left after dropping is not blank. -/
theorem head?_dropBlanks {cs : List Char} {c : Char} (h : (dropBlanks cs).head? = some c) :
    isBlank c = false := by
  have := List.head?_dropWhile_not isBlank cs
  unfold dropBlanks at h
  rw [h] at this
  simpa using this

/-- A trimmed text starts with no blank character. -/
theorem dropBlanks_trimChars (cs : List Char) : dropBlanks (trimChars cs) = trimChars cs := by
  have hprefix : trimChars cs <+: dropBlanks cs := by
    have h := List.dropWhile_suffix (l := (dropBlanks cs).reverse) isBlank
    rwa [← List.reverse_prefix, List.reverse_reverse] at h
  -- what is left starts as the text did without its leading blanks
  refine dropBlanks_eq_self_iff.mpr fun c hc => @head?_dropBlanks cs c ?_
  obtain ⟨rest, hrest⟩ := hprefix
  rw [← hrest, List.head?_append, hc, Option.some_or]

/-- A trimmed text ends in no blank character. -/
theorem dropBlanks_reverse_trimChars (cs : List Char) :
    dropBlanks (trimChars cs).reverse = (trimChars cs).reverse := by
  rw [trimChars, List.reverse_reverse]
  exact dropBlanks_eq_self_iff.mpr fun c hc => head?_dropBlanks hc

/-- Trimming leaves nothing to trim. -/
theorem trimChars_trimChars (cs : List Char) : trimChars (trimChars cs) = trimChars cs := by
  rw [trimChars, dropBlanks_trimChars, dropBlanks_reverse_trimChars, List.reverse_reverse]

theorem trim_trim (s : String) : trim (trim s) = trim s := by
  rw [trim, trim, String.toList_ofList, trimChars_trimChars]

end Text

end OvertimeNotice
