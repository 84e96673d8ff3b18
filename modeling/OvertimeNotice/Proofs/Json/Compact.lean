import OvertimeNotice.Proofs.Json.Rereading
import OvertimeNotice.Proofs.Json.RoundTrip

/-!
# Reading the compact form

A value that is written on one line reads back as itself, but for its numbers: each comes back as
what its text is read as.

* `Json.Ordinary`: values of whole numbers of 64 bits and moderate ones.
* `Json.reread`: the value with every number read again.
* `Json.parse?_compact`: reading what was written.
* `Json.Ordinary.isLine`: what was written has no line break, whatever its strings say.
-/

namespace OvertimeNotice

/-- What the text of a number is read as. -/
def Number.reread : Number → Number
  | .integer i => .integer i
  | .real x => .real x.reread

namespace Json

mutual

/-- The value with every number replaced by what its text is read as. -/
def reread : Json → Json
  | .number n => .number n.reread
  | .array items => .array (rereadItems items)
  | .object members => .object (rereadMembers members)
  | j => j

def rereadItems : List Json → List Json
  | [] => []
  | j :: js => reread j :: rereadItems js

def rereadMembers : List (String × Json) → List (String × Json)
  | [] => []
  | (s, j) :: ms => (s, reread j) :: rereadMembers ms

end

theorem rereadItems_eq (items : List Json) : rereadItems items = items.map reread := by
  induction items with
  | nil => rfl
  | cons j js ih => rw [rereadItems, ih, List.map_cons]

theorem rereadMembers_eq (members : List (String × Json)) :
    rereadMembers members = members.map fun m => (m.1, reread m.2) := by
  induction members with
  | nil => rfl
  | cons m ms ih => rw [rereadMembers, ih, List.map_cons]

/-- Every part of the value has a text, and every number in it is a whole number of 64 bits or a
moderate one. -/
inductive Ordinary : Json → Prop where
  | null : Ordinary .null
  | bool (b : Bool) : Ordinary (.bool b)
  | string (s : String) : Ordinary (.string s)
  | integer {i : Int} (low : -2 ^ 63 ≤ i) (high : i < 2 ^ 64) : Ordinary (.number (.integer i))
  | real {x : Binary64} (h : x.Moderate) : Ordinary (.real x)
  | array {items : List Json} (h : ∀ j ∈ items, Ordinary j) : Ordinary (.array items)
  | object {members : List (String × Json)} (h : ∀ m ∈ members, Ordinary m.2) :
      Ordinary (.object members)

theorem ordinary_nat (n : UInt32) : (nat n.toNat).Ordinary := by
  have := n.toNat_lt
  exact .integer (by omega) (by omega)

theorem ordinary_nullable {α : Type} {write : α → Json} {a : Option α}
    (h : ∀ x ∈ a, (write x).Ordinary) : (nullable write a).Ordinary := by
  cases a with
  | none => exact .null
  | some x => exact h x rfl

theorem ordinary_map {α : Type} {write : α → Json} {l : List α}
    (h : ∀ x ∈ l, (write x).Ordinary) : (array (l.map write)).Ordinary :=
  .array (List.forall_mem_map.mpr h)

open Token

theorem isWordChar_of_mem_integerText {i : Int} {c : Char} (hc : c ∈ integerText i) :
    isWordChar c = true := by
  rw [← JsonNumeral.chars_ofInteger] at hc
  exact JsonNumeral.isWordChar_of_mem_chars (JsonNumeral.wellFormed_ofInteger i) hc

theorem cutsTo_integerText {i : Int} (hlow : -2 ^ 63 ≤ i) (hhigh : i < 2 ^ 64) :
    CutsTo (integerText i) [.scalar (.number (.integer i))] :=
  cutsTo_word (fun _ => isWordChar_of_mem_integerText) (JsonNumeral.ofWord?_integerText hlow hhigh)

theorem legible_nat (n : UInt32) : (nat n.toNat).Legible := by
  have hlt := n.toNat_lt
  exact .number (fun _ => isWordChar_of_mem_integerText)
    (JsonNumeral.ofWord?_integerText (by omega) (by omega))

theorem isGap_nil : ∀ c ∈ ([] : List Char), isGap c = true := nofun

/-- The compact form of a value is cut into the tokens of what it is read as. -/
theorem Ordinary.cutsTo_compactChars {j : Json} (h : j.Ordinary) :
    CutsTo (compactChars j) j.reread.tokens := by
  induction h with
  | null => exact cutsTo_word (w := ['n', 'u', 'l', 'l']) (List.all_eq_true.mp (by decide)) rfl
  | bool b =>
    cases b
    · exact cutsTo_word (w := ['f', 'a', 'l', 's', 'e']) (List.all_eq_true.mp (by decide)) rfl
    · exact cutsTo_word (w := ['t', 'r', 'u', 'e']) (List.all_eq_true.mp (by decide)) rfl
  | string s => exact fun ts cs _ => cut?_string s
  | integer low high => exact cutsTo_integerText low high
  | @real x h =>
    obtain ⟨text, htext, hchars, hword⟩ := h.text?_eq
    have hcompact : compactChars (.real x) = text := by
      show x.text?.getD _ = text
      rw [htext, Option.getD_some]
    rw [hcompact]
    exact cutsTo_word hchars hword
  | @array items _ ih =>
    intro ts cs hcs
    have hopen : ∀ ts : List Token, start? ts '[' = some ⟨.between, .openBracket :: ts⟩ :=
      fun _ => rfl
    have hclose : ∀ ts : List Token, start? ts ']' = some ⟨.between, .closeBracket :: ts⟩ :=
      fun _ => rfl
    rw [reread, rereadItems_eq]
    cases items with
    | nil =>
      simp only [compactChars, compactItems, List.map_nil, tokens, itemTokens, List.cons_append,
        List.nil_append, List.reverse_cons, List.reverse_nil]
      rw [cut?_start (hopen ts), cut?_start (hclose _)]
    | cons j js =>
      have hitems := cutsTo_items isGap_nil compactChars reread compactItems (fun _ => rfl)
        (fun _ _ _ => rfl) (by simp) ih (.openBracket :: ts) (']' :: cs)
        (stops_of_not (by decide) _)
      simp only [compactChars, tokens, List.append_assoc, List.cons_append, List.reverse_append,
        List.reverse_cons, List.reverse_nil, List.nil_append]
      rw [cut?_start (hopen ts), hitems, cut?_start (hclose _)]
  | @object members _ ih =>
    intro ts cs hcs
    have hopen : ∀ ts : List Token, start? ts '\x7b' = some ⟨.between, .openBrace :: ts⟩ :=
      fun _ => rfl
    have hclose : ∀ ts : List Token, start? ts '\x7d' = some ⟨.between, .closeBrace :: ts⟩ :=
      fun _ => rfl
    rw [reread, rereadMembers_eq]
    cases members with
    | nil =>
      simp only [compactChars, compactMembers, List.map_nil, tokens, memberTokens, List.cons_append,
        List.nil_append, List.reverse_cons, List.reverse_nil]
      rw [cut?_start (hopen ts), cut?_start (hclose _)]
    | cons m ms =>
      have hmembers := cutsTo_members isGap_nil isGap_nil compactChars reread compactMembers
        (fun _ _ => rfl) (fun _ _ _ _ => rfl) (by simp) ih (.openBrace :: ts) ('\x7d' :: cs)
        (stops_of_not (by decide) _)
      simp only [compactChars, tokens, List.append_assoc, List.cons_append, List.reverse_append,
        List.reverse_cons, List.reverse_nil, List.nil_append]
      rw [cut?_start (hopen ts), hmembers, cut?_start (hclose _)]

/-- The compact form of a value reads back as the value with its numbers read again. -/
theorem parse?_compact {j : Json} (h : j.Ordinary) : parse? j.compact = some j.reread := by
  have hcut : Token.list? (compactChars j) = some j.reread.tokens := by
    have hj := h.cutsTo_compactChars [] [] (by simp [Token.Stops])
    rw [List.append_nil, List.append_nil, Token.cut?_nil, List.reverse_reverse] at hj
    exact hj
  rw [parse?, compact, String.toList_ofList, hcut, Option.bind_some, JsonReader.build?, readsAs]
  rfl

/-! ## On one line -/

/-- No control character stands in the text. -/
def IsLine (cs : List Char) : Prop := ∀ c ∈ cs, 0x20 ≤ c.toNat

theorem isLine_append {cs ds : List Char} (h : IsLine cs) (h' : IsLine ds) : IsLine (cs ++ ds) :=
  List.forall_mem_append.mpr ⟨h, h'⟩

theorem isLine_cons {c : Char} {cs : List Char} (h : 0x20 ≤ c.toNat) (h' : IsLine cs) :
    IsLine (c :: cs) :=
  List.forall_mem_cons.mpr ⟨h, h'⟩

theorem IsLine.not_mem_newline {cs : List Char} (h : IsLine cs) : '\n' ∉ cs := fun hmem =>
  absurd (h _ hmem) (by decide)

theorem isWordChar_control : ∀ n : Fin 32, isWordChar (Char.ofNat n) = false := by
  decide

theorem isLine_of_isWordChar {cs : List Char} (h : ∀ c ∈ cs, isWordChar c = true) : IsLine cs := by
  intro c hc
  refine Nat.le_of_not_lt fun hcontrol => ?_
  have hnot := isWordChar_control ⟨c.toNat, hcontrol⟩
  rw [Char.ofNat_toNat, h c hc] at hnot
  exact nomatch hnot

theorem hexDigits_of_control : ∀ n : Fin 32, 0x20 ≤ (JsonString.hexDigit (n / 16)).toNat ∧
    0x20 ≤ (JsonString.hexDigit (n % 16)).toNat := by
  decide

theorem isLine_escapeChar (c : Char) : IsLine (JsonString.escapeChar c) := by
  fun_cases JsonString.escapeChar c
  case case8 h =>
    obtain ⟨hhigh, hlow⟩ := hexDigits_of_control ⟨c.toNat, h⟩
    intro d hd
    simp only [List.mem_cons, List.not_mem_nil, or_false] at hd
    rcases hd with rfl | rfl | rfl | rfl | rfl | rfl
    case inr.inr.inr.inr.inl => exact hhigh
    case inr.inr.inr.inr.inr => exact hlow
    all_goals decide
  case case9 h =>
    intro d hd
    rw [List.mem_singleton.mp hd]
    exact Nat.le_of_not_lt h
  all_goals
    intro d hd
    simp only [List.mem_cons, List.not_mem_nil, or_false] at hd
    rcases hd with rfl | rfl <;> decide

theorem isLine_write (s : String) : IsLine (JsonString.write s) := by
  have hescape : IsLine (JsonString.escape s.toList) := by
    intro d hd
    obtain ⟨c, -, hc⟩ := List.mem_flatMap.mp hd
    exact isLine_escapeChar c d hc
  exact isLine_cons (by decide) (isLine_append hescape (isLine_cons (by decide) nofun))

theorem isLine_compactItems {items : List Json} (h : ∀ j ∈ items, IsLine (compactChars j)) :
    IsLine (compactItems items) := by
  induction items with
  | nil => exact nofun
  | cons j js ih =>
    obtain ⟨hj, hjs⟩ := List.forall_mem_cons.mp h
    cases js with
    | nil => exact hj
    | cons k js => exact isLine_append hj (isLine_cons (by decide) (ih hjs))

theorem isLine_compactMembers {members : List (String × Json)}
    (h : ∀ m ∈ members, IsLine (compactChars m.2)) : IsLine (compactMembers members) := by
  induction members with
  | nil => exact nofun
  | cons m ms ih =>
    obtain ⟨s, j⟩ := m
    obtain ⟨hj, hms⟩ := List.forall_mem_cons.mp h
    have hname := isLine_write s
    cases ms with
    | nil => exact isLine_append hname (isLine_cons (by decide) hj)
    | cons m ms =>
      exact isLine_append hname (isLine_cons (by decide)
        (isLine_append hj (isLine_cons (by decide) (ih hms))))

/-- The compact form stands on one line: the line breaks in its strings are escaped. -/
theorem Ordinary.isLine {j : Json} (h : j.Ordinary) : IsLine (compactChars j) := by
  induction h with
  | null => exact isLine_of_isWordChar (List.all_eq_true.mp (by decide))
  | bool b =>
    cases b
    · exact isLine_of_isWordChar (List.all_eq_true.mp (by decide))
    · exact isLine_of_isWordChar (List.all_eq_true.mp (by decide))
  | string s => exact isLine_write s
  | integer low high => exact isLine_of_isWordChar fun _ => isWordChar_of_mem_integerText
  | @real x h =>
    obtain ⟨text, htext, hchars, -⟩ := h.text?_eq
    show IsLine (x.text?.getD _)
    rw [htext, Option.getD_some]
    exact isLine_of_isWordChar hchars
  | array _ ih =>
    exact isLine_cons (by decide)
      (isLine_append (isLine_compactItems ih) (isLine_cons (by decide) nofun))
  | object _ ih =>
    exact isLine_cons (by decide)
      (isLine_append (isLine_compactMembers ih) (isLine_cons (by decide) nofun))

end Json

end OvertimeNotice
