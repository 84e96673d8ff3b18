import OvertimeNotice.Entries
import OvertimeNotice.Files.Content
import OvertimeNotice.Files.Path

/-!
# Branches

What stands in a tree of files: a file, or a directory with what is in it.

* `Branch.find?_put`, `Branch.find?_put_of_ne`, `Branch.find?_put_on_way`, `Branch.find?_drop`:
  what names lead to after a change.
-/

namespace OvertimeNotice

/-- What stands at a place. -/
inductive Node where
  | directory
  | file (content : Content)
deriving DecidableEq

/-- What stands at a place and below it. -/
inductive Branch where
  | directory (entries : List (String × Branch))
  | file (content : Content)

namespace Branch

def node : Branch → Node
  | directory _ => .directory
  | file c => .file c

/-- The branch of a node with nothing below it. -/
def ofNode : Node → Branch
  | .directory => directory []
  | .file c => file c

def entries : Branch → List (String × Branch)
  | directory es => es
  | file _ => []

mutual

/-- The nodes at a place and below it, each directory before what is in it. -/
def nodes (q : Place) : Branch → List (Place × Node)
  | directory es => (q, .directory) :: nodesOfEntries q es
  | file c => [(q, .file c)]

def nodesOfEntries (q : Place) : List (String × Branch) → List (Place × Node)
  | [] => []
  | (s, b) :: es => nodes (s :: q) b ++ nodesOfEntries q es

end

/-- The branch that names lead to. -/
def find? : List String → Branch → Option Branch
  | [], b => some b
  | s :: names, b => (b.entries.lookup s).bind (find? names)

/-- The branch with `n` where names lead to, and directories on the way, whatever stood there. -/
def put (n : Branch) : List String → Branch → Branch
  | [], _ => n
  | s :: names, b =>
    directory ((s, put n names ((b.entries.lookup s).getD (directory []))) ::
      b.entries.filter fun e => e.1 != s)

/-- The branch with nothing where names lead to. -/
def drop : List String → Branch → Branch
  | [], b => b
  | [s], b => directory (b.entries.filter fun e => e.1 != s)
  | s :: r :: names, b =>
    match b.entries.lookup s with
    | none => b
    | some c => directory ((s, drop (r :: names) c) :: b.entries.filter fun e => e.1 != s)

/-! ## What names lead to afterwards -/

theorem find?_append (ms ns : List String) (b : Branch) :
    find? (ms ++ ns) b = (find? ms b).bind (find? ns) := by
  induction ms generalizing b with
  | nil => rfl
  | cons s ms ih =>
    simp only [List.cons_append, find?]
    cases b.entries.lookup s with
    | none => rfl
    | some c => exact ih c

/-- Nothing is below a file, nor below a directory without entries. -/
theorem find?_eq_none {ms : List String} (h : ms ≠ []) {b : Branch} (hb : b.entries = []) :
    find? ms b = none := by
  cases ms with
  | nil => exact absurd rfl h
  | cons s ms => simp [find?, hb]

theorem entries_directory (es : List (String × Branch)) : (directory es).entries = es := rfl

theorem entries_ofNode (n : Node) : (ofNode n).entries = [] := by
  cases n <;> rfl

theorem node_ofNode (n : Node) : (ofNode n).node = n := by
  cases n <;> rfl

theorem entries_of_node_ne {b : Branch} (h : b.node ≠ .directory) : b.entries = [] := by
  cases b with
  | directory es => exact absurd rfl h
  | file c => rfl

theorem lookup_others (s r : String) (es : List (String × Branch)) :
    (es.filter fun e => e.1 != s).lookup r = if r = s then none else es.lookup r := by
  rw [Entries.lookup_filter_keys (· != s)]
  by_cases h : r = s <;> simp [h]

theorem find?_put (n : Branch) (ns ms : List String) (b : Branch) :
    find? (ns ++ ms) (put n ns b) = find? ms n := by
  induction ns generalizing b with
  | nil => rfl
  | cons s ns ih => simp [put, find?, entries_directory, ih]

/-- What is not on the way stays. -/
theorem find?_put_of_ne (n : Branch) {ns ms : List String} (h₁ : ¬ ns <+: ms) (h₂ : ¬ ms <+: ns)
    (b : Branch) : find? ms (put n ns b) = find? ms b := by
  induction ns generalizing ms b with
  | nil => exact absurd List.nil_prefix h₁
  | cons s ns ih =>
    cases ms with
    | nil => exact absurd List.nil_prefix h₂
    | cons r ms =>
      simp only [put, find?, entries_directory, Entries.lookup_entry, lookup_others]
      by_cases h : r = s
      · subst h
        simp only [if_true, Option.bind_some, List.cons_prefix_cons, true_and] at h₁ h₂ ⊢
        rw [ih h₁ h₂]
        cases hl : b.entries.lookup r with
        | some c => rfl
        | none =>
          rw [Option.getD_none, Option.bind_none,
            find?_eq_none (by rintro rfl; exact h₂ List.nil_prefix) rfl]
      · simp [h]

/-- Directories stand on the way. -/
theorem find?_put_on_way (n : Branch) {ns ms : List String} (h : ms <+: ns) (hne : ms ≠ ns)
    (b : Branch) : ∃ es, find? ms (put n ns b) = some (directory es) := by
  induction ns generalizing ms b with
  | nil => exact absurd (List.prefix_nil.mp h) hne
  | cons s ns ih =>
    cases ms with
    | nil => exact ⟨_, rfl⟩
    | cons r ms =>
      obtain ⟨rfl, hp⟩ := List.cons_prefix_cons.mp h
      simp only [put, find?, entries_directory, Entries.lookup_entry, if_true, Option.bind_some]
      exact ih hp (fun e => hne (e ▸ rfl)) _

theorem find?_drop {ns : List String} (hn : ns ≠ []) (ms : List String) {b : Branch}
    (h : (find? ns b).isSome) : (find? ms (drop ns b)).map node =
      if ns <+: ms then none else (find? ms b).map node := by
  induction ns generalizing ms b with
  | nil => exact absurd rfl hn
  | cons s ns ih =>
    obtain ⟨c, hc⟩ : ∃ c, b.entries.lookup s = some c := by
      cases hl : b.entries.lookup s with
      | none => simp [find?, hl] at h
      | some c => exact ⟨c, rfl⟩
    obtain ⟨es, rfl⟩ : ∃ es, b = directory es := by
      cases b with
      | directory es => exact ⟨es, rfl⟩
      | file c => cases hc
    rw [entries_directory] at hc
    cases ns with
    | nil =>
      cases ms with
      | nil => simp [drop, find?, node]
      | cons r ms =>
        by_cases hr : r = s
        · simp [drop, find?, entries_directory, lookup_others, hr]
        · simp [drop, find?, entries_directory, lookup_others, hr, Ne.symm hr]
    | cons s' ns =>
      cases ms with
      | nil => simp [drop, entries_directory, hc, find?, node]
      | cons r ms =>
        by_cases hr : r = s
        · subst hr
          have hf : (find? (s' :: ns) c).isSome := by
            rw [find?, entries_directory, hc] at h
            exact h
          have hi := ih (List.cons_ne_nil _ _) ms hf
          rw [drop, entries_directory, hc]
          simp only [find?, entries_directory, List.lookup_cons_self, Option.bind_some, hc,
            List.cons_prefix_cons, true_and] at hi ⊢
          exact hi
        · simp [drop, entries_directory, hc, find?, Entries.lookup_entry, lookup_others, hr,
            Ne.symm hr]

end Branch

end OvertimeNotice
