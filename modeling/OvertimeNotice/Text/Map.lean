import OvertimeNotice.Entries
import OvertimeNotice.Text.Set

/-!
# Maps from texts

A finite map with texts as keys, kept in ascending order of its keys. Inserting under a present
key replaces the value, so the last of several values for a key wins.

* `find?_insert`: what is found after an insertion.
-/

namespace OvertimeNotice

/-- `v` put under the key `k` of a list ascending in its keys, in place of an older value. -/
def insertEntry {α : Type} (k : String) (v : α) : List (String × α) → List (String × α)
  | [] => [(k, v)]
  | e :: es =>
    if k < e.1 then (k, v) :: e :: es
    else if k = e.1 then (k, v) :: es
    else e :: insertEntry k v es

theorem keys_insertEntry {α : Type} (k : String) (v : α) (l : List (String × α)) :
    (insertEntry k v l).map (·.1) = insertAscending k (l.map (·.1)) := by
  induction l with
  | nil => rfl
  | cons e es ih =>
    simp only [insertEntry, insertAscending, List.map_cons]
    split
    · rfl
    · split
      · next h => simp [h]
      · simp [ih]

/-- A finite map from texts. -/
structure TextMap (α : Type) where
  /-- The entries, ascending in their keys. -/
  toList : List (String × α)
  ascending : (toList.map (·.1)).Pairwise (· < ·)

deriving instance DecidableEq for TextMap

namespace TextMap

variable {α : Type}

/-- The map without entries. -/
def empty : TextMap α := ⟨[], pairwise_nil⟩

instance : Inhabited (TextMap α) := ⟨empty⟩

/-- The map with `v` under `k`, whatever was there. -/
def insert (m : TextMap α) (k : String) (v : α) : TextMap α :=
  ⟨insertEntry k v m.toList, by
    rw [keys_insertEntry]; exact pairwise_insertAscending m.ascending⟩

/-- The entries of a list; of several under one key the last. -/
def ofList (l : List (String × α)) : TextMap α := l.foldl (fun m e => m.insert e.1 e.2) empty

/-- The value under `k`. -/
def find? (m : TextMap α) (k : String) : Option α := m.toList.lookup k

def keys (m : TextMap α) : List String := m.toList.map (·.1)

/-! ## Look-up -/

theorem lookup_insertEntry (k a : String) (v : α) (l : List (String × α)) :
    (insertEntry k v l).lookup a = if a = k then some v else l.lookup a := by
  induction l with
  | nil => exact Entries.lookup_entry a k v []
  | cons e es ih =>
    obtain ⟨b, w⟩ := e
    simp only [insertEntry]
    split
    · rw [Entries.lookup_entry]
    · split
      · next hkb => subst hkb; grind [Entries.lookup_entry]
      · grind [Entries.lookup_entry]

/-- An inserted value is found under its key, all else as before. -/
@[simp] theorem find?_insert (m : TextMap α) (k a : String) (v : α) :
    (m.insert k v).find? a = if a = k then some v else m.find? a :=
  lookup_insertEntry k a v m.toList

end TextMap

end OvertimeNotice
