import OvertimeNotice.Json.Reader
import OvertimeNotice.Json.Writer

/-!
# Reading what was written

A value that is written reads back as itself: its text is cut into the tokens of the value, and the
reader puts them together again.

* `Json.Legible`: the values whose numbers read back.
* `Json.tokens`: the tokens of a value; `Json.readsAs`: they are read as the value.
* `Json.cutsTo_items`, `Json.cutsTo_members`: the parts of a value, in either form.
* `Json.parse?_pretty`: reading what was written.
-/

namespace OvertimeNotice

namespace Json

/-- Every part of the value has a text, and every number in it reads back from its text. -/
inductive Legible : Json → Prop where
  | null : Legible .null
  | bool (b : Bool) : Legible (.bool b)
  | string (s : String) : Legible (.string s)
  | number {n : Number} (chars : ∀ c ∈ numberText n, Token.isWordChar c = true)
      (word : Token.ofWord? (numberText n) = some (.scalar (.number n))) : Legible (.number n)
  | array {items : List Json} (h : ∀ j ∈ items, Legible j) : Legible (.array items)
  | object {members : List (String × Json)} (h : ∀ m ∈ members, Legible m.2) :
      Legible (.object members)

theorem legible_texts (l : List String) : Legible (texts l) :=
  .array fun j hj => by
    obtain ⟨s, -, rfl⟩ := List.mem_map.mp hj
    exact .string s

mutual

/-- The tokens of a value. -/
def tokens : Json → List Token
  | .array items => .openBracket :: (itemTokens items ++ [.closeBracket])
  | .object members => .openBrace :: (memberTokens members ++ [.closeBrace])
  | .string s => [.string (some s)]
  | j => [.scalar j]

def itemTokens : List Json → List Token
  | [] => []
  | [j] => tokens j
  | j :: k :: js => tokens j ++ .comma :: itemTokens (k :: js)

def memberTokens : List (String × Json) → List Token
  | [] => []
  | [(s, j)] => .string (some s) :: .colon :: tokens j
  | (s, j) :: m :: ms =>
    .string (some s) :: .colon :: (tokens j ++ .comma :: memberTokens (m :: ms))

end

end Json

/-! ## Cutting a text -/

namespace Token

variable {ts : List Token} {cs : List Char}

/-- The tokens of a text, after others that were cut off before it, last first. -/
def cut? (ts : List Token) (cs : List Char) : Option (List Token) :=
  (scan? ⟨.between, ts⟩ cs).bind finish?

theorem cut?_nil (ts : List Token) : cut? ts [] = some ts.reverse := rfl

/-- Nothing that belongs to a word follows. -/
def Stops (cs : List Char) : Prop := ∀ c ∈ cs.head?, isWordChar c = false

theorem scan?_cons (s : Scanner) (c : Char) (cs : List Char) :
    scan? s (c :: cs) = (step? s c).bind fun t => scan? t cs := rfl

theorem cut?_start {us : List Token} {c : Char} (h : start? ts c = some ⟨.between, us⟩)
    (cs : List Char) : cut? ts (c :: cs) = cut? us cs := by
  have hs : step? ⟨.between, ts⟩ c = some ⟨.between, us⟩ := h
  rw [cut?, scan?_cons, hs]
  rfl

theorem cut?_gaps {gs : List Char} (h : ∀ c ∈ gs, isGap c = true) :
    cut? ts (gs ++ cs) = cut? ts cs := by
  induction gs with
  | nil => rfl
  | cons c gs ih =>
    have hc : start? ts c = some ⟨.between, ts⟩ := by
      rw [start?, if_pos (h c List.mem_cons_self)]
    rw [List.cons_append, cut?_start hc]
    exact ih fun c hc => h c (List.mem_cons_of_mem _ hc)

theorem start?_word {c : Char} (h : isWordChar c = true) :
    start? ts c = some ⟨.inWord [c], ts⟩ := by
  have hgap : isGap c = false := by
    rw [← Bool.not_eq_true]
    intro hc
    simp only [isGap, Bool.or_eq_true, beq_iff_eq] at hc
    rcases hc with ((rfl | rfl) | rfl) | rfl <;> exact absurd h (by decide)
  have hquote : c ≠ '"' := by
    rintro rfl
    exact absurd h (by decide)
  rw [start?, hgap, if_neg Bool.false_ne_true, if_neg hquote, if_pos h]

theorem scan?_word {w read : List Char} (h : ∀ c ∈ w, isWordChar c = true) :
    scan? ⟨.inWord read, ts⟩ (w ++ cs) = scan? ⟨.inWord (w.reverse ++ read), ts⟩ cs := by
  induction w generalizing read with
  | nil => rfl
  | cons c w ih =>
    have hc : step? ⟨.inWord read, ts⟩ c = some ⟨.inWord (c :: read), ts⟩ := by
      rw [step?]
      exact if_pos (h c List.mem_cons_self)
    rw [List.cons_append, scan?_cons, hc, Option.bind_some,
      ih fun c hc => h c (List.mem_cons_of_mem _ hc), List.reverse_cons, List.append_assoc]
    rfl

theorem cut?_word {w : List Char} {t : Token} (h : ∀ c ∈ w, isWordChar c = true)
    (hw : ofWord? w = some t) (hcs : Stops cs) : cut? ts (w ++ cs) = cut? (t :: ts) cs := by
  cases w with
  | nil => exact nomatch hw
  | cons c w =>
    have hscan : scan? ⟨.between, ts⟩ (c :: w ++ cs) = scan? ⟨.inWord (c :: w).reverse, ts⟩ cs := by
      have hc : step? ⟨.between, ts⟩ c = some ⟨.inWord [c], ts⟩ :=
        start?_word (h c List.mem_cons_self)
      rw [List.cons_append, scan?_cons, hc, Option.bind_some,
        scan?_word fun c hc => h c (List.mem_cons_of_mem _ hc), List.reverse_cons]
    rw [cut?, cut?, hscan]
    cases cs with
    | nil =>
      simp only [scan?, List.foldlM_nil, Option.pure_def, Option.bind_some, finish?,
        List.reverse_reverse, hw, Option.map_some]
    | cons d cs =>
      have hd : isWordChar d = false := hcs d rfl
      have hstep : step? ⟨.inWord (c :: w).reverse, ts⟩ d = step? ⟨.between, t :: ts⟩ d := by
        simp only [step?, hd, Bool.false_eq_true, if_false, List.reverse_reverse, hw,
          Option.bind_some]
      rw [scan?_cons, scan?_cons, hstep]

/-! ### Strings -/

theorem step?_inString {c : Char} (hq : c ≠ '"') (hb : c ≠ '\\') (read : List Char) :
    step? ⟨.inString read false, ts⟩ c = some ⟨.inString (c :: read) false, ts⟩ := by
  simp [step?, hq, hb]

theorem hexDigit_ne : ∀ n : Fin 32, JsonString.hexDigit (n / 16) ≠ '"' ∧
    JsonString.hexDigit (n / 16) ≠ '\\' ∧ JsonString.hexDigit (n % 16) ≠ '"' ∧
      JsonString.hexDigit (n % 16) ≠ '\\' := by
  decide

theorem scan?_escapeChar (c : Char) (read : List Char) :
    scan? ⟨.inString read false, ts⟩ (JsonString.escapeChar c ++ cs) =
      scan? ⟨.inString ((JsonString.escapeChar c).reverse ++ read) false, ts⟩ cs := by
  fun_cases JsonString.escapeChar c
  case case8 h =>
    obtain ⟨h₁, h₂, h₃, h₄⟩ := hexDigit_ne ⟨c.toNat, h⟩
    have hfour : scan? ⟨.inString read false, ts⟩ (['\\', 'u', '0', '0'] ++
        (JsonString.hexDigit (c.toNat / 16) :: JsonString.hexDigit (c.toNat % 16) :: cs)) =
        scan? ⟨.inString ('0' :: '0' :: 'u' :: '\\' :: read) false, ts⟩
          (JsonString.hexDigit (c.toNat / 16) :: JsonString.hexDigit (c.toNat % 16) :: cs) := rfl
    refine hfour.trans ?_
    rw [scan?_cons, step?_inString h₁ h₂, Option.bind_some, scan?_cons, step?_inString h₃ h₄]
    rfl
  case case9 h₁ h₂ _ _ _ _ _ _ =>
    rw [List.singleton_append, scan?_cons, step?_inString h₁ h₂]
    rfl
  all_goals
    rfl

theorem scan?_escape (l read : List Char) :
    scan? ⟨.inString read false, ts⟩ (JsonString.escape l ++ cs) =
      scan? ⟨.inString ((JsonString.escape l).reverse ++ read) false, ts⟩ cs := by
  induction l generalizing read with
  | nil => rfl
  | cons c l ih =>
    have hc : JsonString.escape (c :: l) = JsonString.escapeChar c ++ JsonString.escape l := rfl
    rw [hc, List.append_assoc, scan?_escapeChar, ih, List.reverse_append, List.append_assoc]

theorem cut?_string (s : String) :
    cut? ts (JsonString.write s ++ cs) = cut? (.string (some s) :: ts) cs := by
  have hopen : step? ⟨.between, ts⟩ '"' = some ⟨.inString [] false, ts⟩ := rfl
  have hread : ofString? (JsonString.escape s.toList) = some (.string (some s)) := by
    obtain ⟨ps, hps, hs⟩ := Option.bind_eq_some_iff.mp (JsonString.join?_pieces?_escape s.toList)
    rw [ofString?, hps, Option.map_some, hs, Option.map_some, String.ofList_toList]
  have hclose : step? ⟨.inString (JsonString.escape s.toList).reverse false, ts⟩ '"' =
      some ⟨.between, .string (some s) :: ts⟩ := by
    simp only [step?, if_true, List.reverse_reverse, hread, Option.map_some]
  rw [cut?, cut?, JsonString.write, List.cons_append, List.append_assoc, scan?_cons, hopen,
    Option.bind_some, scan?_escape, List.append_nil, List.singleton_append, scan?_cons, hclose,
    Option.bind_some]

end Token

/-! ## The pretty form -/

namespace Json

open Token

variable {ts : List Token} {cs : List Char}

theorem stops_of_not {c : Char} (h : isWordChar c = false) (cs : List Char) : Stops (c :: cs) := by
  intro d hd
  rw [List.head?_cons, Option.mem_some_iff] at hd
  rw [← hd, h]

theorem isGap_newLine (level : Nat) : ∀ c ∈ newLine level, isGap c = true := by
  intro c hc
  rcases List.mem_cons.mp hc with rfl | hc
  · decide
  · rw [(List.mem_replicate.mp hc).2]
    decide

theorem cut?_newLine (level : Nat) : cut? ts (newLine level ++ cs) = cut? ts cs :=
  cut?_gaps (isGap_newLine level)

/-- The text of a value is cut into its tokens. -/
def CutsTo (text : List Char) (tokens : List Token) : Prop :=
  ∀ (ts : List Token) (cs : List Char), Stops cs →
    cut? ts (text ++ cs) = cut? (tokens.reverse ++ ts) cs

/-- Items with a comma and a gap between them are cut into the tokens of what each is read as. -/
theorem cutsTo_items {gap : List Char} (hgap : ∀ c ∈ gap, isGap c = true)
    (text : Json → List Char) (read : Json → Json) (write : List Json → List Char)
    (hone : ∀ j, write [j] = text j)
    (hmore : ∀ j k js, write (j :: k :: js) = text j ++ ',' :: (gap ++ write (k :: js)))
    {items : List Json} (hne : items ≠ []) (h : ∀ j ∈ items, CutsTo (text j) (read j).tokens) :
    CutsTo (write items) (itemTokens (items.map read)) := by
  induction items with
  | nil => exact absurd rfl hne
  | cons j js ih =>
    cases js with
    | nil =>
      rw [hone]
      exact h j List.mem_cons_self
    | cons k js =>
      intro ts cs hcs
      have hj := h j List.mem_cons_self ts (',' :: (gap ++ (write (k :: js) ++ cs)))
        (stops_of_not (by decide) _)
      have hjs := ih (by simp) (fun k hk => h k (List.mem_cons_of_mem _ hk))
        (.comma :: ((read j).tokens.reverse ++ ts)) cs hcs
      have hcomma : start? ((read j).tokens.reverse ++ ts) ',' =
          some ⟨.between, .comma :: ((read j).tokens.reverse ++ ts)⟩ := rfl
      simp only [hmore, List.map_cons, itemTokens, List.append_assoc, List.cons_append,
        List.reverse_append, List.reverse_cons, List.nil_append]
      rw [hj, cut?_start hcomma, cut?_gaps hgap, hjs]
      rfl

/-- Members are cut likewise. A gap may follow a colon too. -/
theorem cutsTo_members {gap blank : List Char} (hgap : ∀ c ∈ gap, isGap c = true)
    (hblank : ∀ c ∈ blank, isGap c = true) (text : Json → List Char) (read : Json → Json)
    (write : List (String × Json) → List Char)
    (hone : ∀ s j, write [(s, j)] = JsonString.write s ++ ':' :: (blank ++ text j))
    (hmore : ∀ s j m ms, write ((s, j) :: m :: ms) =
      JsonString.write s ++ ':' :: (blank ++ (text j ++ ',' :: (gap ++ write (m :: ms)))))
    {members : List (String × Json)} (hne : members ≠ [])
    (h : ∀ m ∈ members, CutsTo (text m.2) (read m.2).tokens) :
    CutsTo (write members) (memberTokens (members.map fun m => (m.1, read m.2))) := by
  induction members with
  | nil => exact absurd rfl hne
  | cons m ms ih =>
    obtain ⟨s, j⟩ := m
    have hcolon : ∀ ts : List Token, start? (.string (some s) :: ts) ':' =
        some ⟨.between, .colon :: .string (some s) :: ts⟩ := fun _ => rfl
    cases ms with
    | nil =>
      intro ts cs hcs
      have hj := h (s, j) List.mem_cons_self (.colon :: .string (some s) :: ts) cs hcs
      simp only [hone, List.map_cons, List.map_nil, memberTokens, List.append_assoc,
        List.cons_append, List.reverse_cons, List.nil_append]
      rw [cut?_string, cut?_start (hcolon ts), cut?_gaps hblank, hj]
    | cons m ms =>
      intro ts cs hcs
      have hj := h (s, j) List.mem_cons_self (.colon :: .string (some s) :: ts)
        (',' :: (gap ++ (write (m :: ms) ++ cs))) (stops_of_not (by decide) _)
      have hms := ih (by simp) (fun k hk => h k (List.mem_cons_of_mem _ hk))
        (.comma :: ((read j).tokens.reverse ++ .colon :: .string (some s) :: ts)) cs hcs
      have hcomma : start? ((read j).tokens.reverse ++ .colon :: .string (some s) :: ts) ',' =
          some ⟨.between,
            .comma :: ((read j).tokens.reverse ++ .colon :: .string (some s) :: ts)⟩ :=
        rfl
      simp only [hmore, List.map_cons, memberTokens, List.append_assoc, List.cons_append,
        List.reverse_append, List.reverse_cons, List.nil_append]
      rw [cut?_string, cut?_start (hcolon ts), cut?_gaps hblank, hj, cut?_start hcomma,
        cut?_gaps hgap]
      exact hms

theorem cutsTo_prettyItems (level : Nat) {items : List Json} (hne : items ≠ [])
    (h : ∀ j ∈ items, CutsTo (prettyChars level j) j.tokens) :
    CutsTo (prettyItems level items) (itemTokens items) := by
  have hitems := cutsTo_items (isGap_newLine level) (prettyChars level) id (prettyItems level)
    (fun _ => rfl) (fun _ _ _ => rfl) hne h
  rwa [List.map_id] at hitems

theorem cutsTo_prettyMembers (level : Nat) {members : List (String × Json)} (hne : members ≠ [])
    (h : ∀ m ∈ members, CutsTo (prettyChars level m.2) m.2.tokens) :
    CutsTo (prettyMembers level members) (memberTokens members) := by
  have hblank : ∀ c ∈ [' '], isGap c = true := List.all_eq_true.mp (by decide)
  have hmembers := cutsTo_members (isGap_newLine level) hblank (prettyChars level) id
    (prettyMembers level) (fun _ _ => rfl) (fun _ _ _ _ => rfl) hne h
  simpa using hmembers

theorem cutsTo_word {w : List Char} {t : Token} (h : ∀ c ∈ w, isWordChar c = true)
    (hw : ofWord? w = some t) : CutsTo w [t] := fun _ _ hcs => cut?_word h hw hcs

/-- The pretty form of a value is cut into its tokens. -/
theorem Legible.cutsTo_prettyChars {j : Json} (h : j.Legible) (level : Nat) :
    CutsTo (prettyChars level j) j.tokens := by
  induction h generalizing level with
  | null => exact cutsTo_word (w := ['n', 'u', 'l', 'l']) (List.all_eq_true.mp (by decide)) rfl
  | bool b =>
    cases b
    · exact cutsTo_word (w := ['f', 'a', 'l', 's', 'e']) (List.all_eq_true.mp (by decide)) rfl
    · exact cutsTo_word (w := ['t', 'r', 'u', 'e']) (List.all_eq_true.mp (by decide)) rfl
  | string s => exact fun ts cs _ => cut?_string s
  | number chars word => exact cutsTo_word chars word
  | @array items _ ih =>
    intro ts cs hcs
    have hopen : ∀ ts : List Token, start? ts '[' = some ⟨.between, .openBracket :: ts⟩ :=
      fun _ => rfl
    have hclose : ∀ ts : List Token, start? ts ']' = some ⟨.between, .closeBracket :: ts⟩ :=
      fun _ => rfl
    cases items with
    | nil =>
      simp only [prettyChars, tokens, itemTokens, List.cons_append, List.nil_append,
        List.reverse_cons, List.reverse_nil]
      rw [cut?_start (hopen ts), cut?_start (hclose _)]
    | cons j js =>
      have hitems := cutsTo_prettyItems (level + 1) (by simp) (fun k hk => ih k hk _)
        (.openBracket :: ts) (newLine level ++ (']' :: cs)) (stops_of_not (by decide) _)
      simp only [prettyChars, tokens, List.append_assoc, List.cons_append, List.reverse_append,
        List.reverse_cons, List.reverse_nil, List.nil_append]
      rw [cut?_start (hopen ts), cut?_newLine, hitems, cut?_newLine, cut?_start (hclose _)]
  | @object members _ ih =>
    intro ts cs hcs
    have hopen : ∀ ts : List Token, start? ts '\x7b' = some ⟨.between, .openBrace :: ts⟩ :=
      fun _ => rfl
    have hclose : ∀ ts : List Token, start? ts '\x7d' = some ⟨.between, .closeBrace :: ts⟩ :=
      fun _ => rfl
    cases members with
    | nil =>
      simp only [prettyChars, tokens, memberTokens, List.cons_append, List.nil_append,
        List.reverse_cons, List.reverse_nil]
      rw [cut?_start (hopen ts), cut?_start (hclose _)]
    | cons m ms =>
      have hmembers := cutsTo_prettyMembers (level + 1) (by simp) (fun k hk => ih k hk _)
        (.openBrace :: ts) (newLine level ++ ('\x7d' :: cs)) (stops_of_not (by decide) _)
      simp only [prettyChars, tokens, List.append_assoc, List.cons_append, List.reverse_append,
        List.reverse_cons, List.reverse_nil, List.nil_append]
      rw [cut?_start (hopen ts), cut?_newLine, hmembers, cut?_newLine, cut?_start (hclose _)]

end Json

/-! ## Putting the tokens together -/

namespace Json

open JsonReader

theorem run?_cons (s : State) (t : Token) (ts : List Token) :
    run? s (t :: ts) = (step? s t).bind fun u => run? u ts := rfl

/-- The first item of an array is read like any value. -/
theorem run?_firstItem (j : Json) (ts : List Token) (stack : List Frame) :
    run? ⟨.firstItem, stack⟩ (j.tokens ++ ts) =
      run? ⟨.value, .array [] :: stack⟩ (j.tokens ++ ts) := by
  cases j <;> rfl

/-- The reader takes the tokens of a value for the value. -/
def ReadsAs (tokens : List Token) (j : Json) : Prop :=
  ∀ stack : List Frame, run? ⟨.value, stack⟩ tokens = some (settle j stack)

theorem run?_itemTokens {j : Json} {js : List Json} (h : ∀ k ∈ j :: js, ReadsAs k.tokens k)
    (done : List Json) (stack : List Frame) :
    run? ⟨.value, .array done :: stack⟩ (itemTokens (j :: js)) =
      some ⟨.itemEnd ((j :: js).reverse ++ done), stack⟩ := by
  induction js generalizing j done with
  | nil => exact h j List.mem_cons_self _
  | cons k js ih =>
    have hstep : step? (settle j (.array done :: stack)) .comma =
        some ⟨.value, .array (j :: done) :: stack⟩ := rfl
    rw [itemTokens, run?_append, h j List.mem_cons_self, Option.bind_some, run?_cons, hstep,
      Option.bind_some, ih fun k hk => h k (List.mem_cons_of_mem _ hk), List.reverse_cons (a := j),
      List.append_assoc]
    rfl

/-- A member as the reader keeps it. -/
def heldMember (m : String × Json) : Option String × Json := (some m.1, m.2)

theorem run?_memberTokens {m : String × Json} {ms : List (String × Json)}
    (h : ∀ n ∈ m :: ms, ReadsAs n.2.tokens n.2) {e : Expect} {stack : List Frame}
    (done : List (Option String × Json))
    (he : ∀ name, step? ⟨e, stack⟩ (.string name) = some ⟨.colon done name, stack⟩) :
    run? ⟨e, stack⟩ (memberTokens (m :: ms)) =
      some ⟨.memberEnd (((m :: ms).map heldMember).reverse ++ done), stack⟩ := by
  induction ms generalizing m e done with
  | nil =>
    obtain ⟨s, j⟩ := m
    have hcolon : step? ⟨.colon done (some s), stack⟩ .colon =
        some ⟨.value, .object done (some s) :: stack⟩ := rfl
    rw [memberTokens, run?_cons, he, Option.bind_some, run?_cons, hcolon, Option.bind_some,
      h (s, j) List.mem_cons_self]
    rfl
  | cons n ms ih =>
    obtain ⟨s, j⟩ := m
    have hcolon : step? ⟨.colon done (some s), stack⟩ .colon =
        some ⟨.value, .object done (some s) :: stack⟩ := rfl
    have hcomma : step? (settle j (.object done (some s) :: stack)) .comma =
        some ⟨.nextName ((some s, j) :: done), stack⟩ := rfl
    rw [memberTokens, run?_cons, he, Option.bind_some, run?_cons, hcolon, Option.bind_some,
      run?_append, h (s, j) List.mem_cons_self, Option.bind_some, run?_cons, hcomma,
      Option.bind_some, ih (fun k hk => h k (List.mem_cons_of_mem _ hk)) _ fun _ => rfl,
      List.map_cons (a := (s, j)), List.reverse_cons (a := heldMember (s, j)), List.append_assoc]
    rfl

theorem objectOf_map_heldMember (ms : List (String × Json)) :
    objectOf (ms.map heldMember).reverse = .object ms := by
  have hms : (ms.map heldMember).mapM (fun m => m.1.map fun k => (k, m.2)) = some ms := by
    induction ms with
    | nil => rfl
    | cons m ms ih =>
      rw [List.map_cons, List.mapM_cons, ih]
      rfl
  rw [objectOf, List.reverse_reverse, hms]

theorem sizeOf_snd_lt (m : String × Json) : sizeOf m.2 < sizeOf m := by
  obtain ⟨s, j⟩ := m
  show sizeOf j < 1 + sizeOf s + sizeOf j
  omega

/-- The tokens of any value are read as the value. -/
theorem readsAs (j : Json) : ReadsAs j.tokens j := by
  match j with
  | .null | .bool _ | .number _ | .string _ | .illFormed => exact fun _ => rfl
  | .array [] | .object [] => exact fun _ => rfl
  | .array (j :: js) =>
    intro stack
    have hopen : step? ⟨.value, stack⟩ .openBracket = some ⟨.firstItem, stack⟩ := rfl
    have hfirst : run? ⟨.firstItem, stack⟩ (itemTokens (j :: js)) =
        run? ⟨.value, .array [] :: stack⟩ (itemTokens (j :: js)) := by
      cases js with
      | nil => simpa [itemTokens] using run?_firstItem j [] stack
      | cons k js => exact run?_firstItem j _ stack
    rw [tokens, run?_cons, hopen, Option.bind_some, run?_append, hfirst,
      run?_itemTokens (fun k hk => readsAs k) [] stack, Option.bind_some, List.append_nil]
    change some (settle (.array (j :: js).reverse.reverse) stack) = _
    rw [List.reverse_reverse]
  | .object (m :: ms) =>
    intro stack
    have hopen : step? ⟨.value, stack⟩ .openBrace = some ⟨.firstName, stack⟩ := rfl
    rw [tokens, run?_cons, hopen, Option.bind_some, run?_append,
      run?_memberTokens (fun n hn => readsAs n.2) [] fun _ => rfl, Option.bind_some,
      List.append_nil]
    change some (settle (objectOf ((m :: ms).map heldMember).reverse) stack) = _
    rw [objectOf_map_heldMember]
termination_by j
decreasing_by
  · have := List.sizeOf_lt_of_mem hk
    simp only [array.sizeOf_spec]
    omega
  · have hsnd := sizeOf_snd_lt n
    have := List.sizeOf_lt_of_mem hn
    simp only [object.sizeOf_spec]
    omega

/-- The pretty form of a value reads back as the value. -/
theorem parse?_pretty {j : Json} (h : j.Legible) : parse? j.pretty = some j := by
  have hcut : Token.list? (prettyChars 0 j) = some j.tokens := by
    have hj := h.cutsTo_prettyChars 0 [] [] (by simp [Token.Stops])
    rw [List.append_nil, List.append_nil, Token.cut?_nil, List.reverse_reverse] at hj
    exact hj
  rw [parse?, pretty, String.toList_ofList, hcut, Option.bind_some, build?, readsAs]
  rfl

end Json

end OvertimeNotice
