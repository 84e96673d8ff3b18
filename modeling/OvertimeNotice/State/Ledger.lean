import OvertimeNotice.Entries
import OvertimeNotice.State.Backend
import OvertimeNotice.State.Warning

/-!
# The ledger

The one place where a run asks what was sent already. A month is loaded from the backend when it
is first asked about, and kept. A month that cannot be loaded counts as empty, with a warning:
something sent twice is better than something lost. A mark is kept first and written through
after, so it sticks even if writing it fails.

* `hasNotified`, `markNotified`, `reset`, `drain`: the operations, each with the ledger after it.
* `cached?_setMarks`, `cached?_reset`: what is kept of a month after a change.
-/

namespace OvertimeNotice

/-- The marks of one month: employees with markers. -/
abbrev MonthMarks := List (String × Marker)

/-- A ledger over a backend in state `store`. -/
structure Ledger (σ : Type) where
  store : σ
  /-- The months loaded so far. -/
  months : List (Month × MonthMarks)
  /-- Warnings not handed out yet, in the order they were raised. -/
  warnings : List Warning

namespace Ledger

variable {σ : Type}

/-- A ledger that has loaded nothing. -/
def fresh (store : σ) : Ledger σ := { store, months := [], warnings := [] }

/-- The marks kept of a month, if it was loaded. -/
def cached? (l : Ledger σ) (month : Month) : Option MonthMarks := l.months.lookup month

/-- What the backend's answer says about a month. -/
def marksOf (month : Month) (entries : List Mark) : MonthMarks :=
  (entries.filter fun e => e.month == month).map fun e => (e.employee, e.marker)

/-- The ledger with a month loaded. -/
def loaded (b : Backend σ) (month : Month) (l : Ledger σ) : Ledger σ :=
  match l.cached? month with
  | some _ => l
  | none =>
    match b.load month l.store with
    | (.ok entries, store) =>
      { l with store, months := (month, marksOf month entries) :: l.months }
    | (.error f, store) =>
      { store, months := (month, []) :: l.months
        warnings := l.warnings ++ [.stateReadFailed month f.message] }

/-- The marks kept of a month; none before it is loaded. -/
def marks (l : Ledger σ) (month : Month) : MonthMarks := (l.cached? month).getD []

/-- The ledger with other marks for a month. -/
def setMarks (l : Ledger σ) (month : Month) (ms : MonthMarks) : Ledger σ :=
  { l with months := (month, ms) :: l.months.filter fun e => e.1 != month }

/-- Whether a marker was sent. -/
def hasNotified (b : Backend σ) (employee : String) (month : Month) (marker : Marker)
    (l : Ledger σ) : Bool × Ledger σ :=
  let l := l.loaded b month
  ((l.marks month).contains (employee, marker), l)

/-- Keeps a marker as sent, and writes it through if it is new. -/
def markNotified (b : Backend σ) (employee : String) (month : Month) (marker : Marker)
    (l : Ledger σ) : Except Failure Unit × Ledger σ :=
  let l := l.loaded b month
  if (l.marks month).contains (employee, marker) then (.ok (), l)
  else
    let l := l.setMarks month ((employee, marker) :: l.marks month)
    let r := b.upsert { employee, month, marker } l.store
    (r.1, { l with store := r.2 })

/-- Forgets the months before a month, here and in the backend. -/
def reset (b : Backend σ) (month : Month) (l : Ledger σ) : Except Failure Nat × Ledger σ :=
  let r := b.purge month l.store
  (r.1, { l with store := r.2, months := l.months.filter fun e => decide (month ≤ e.1) })

/-- Hands out the warnings. -/
def drain (l : Ledger σ) : List Warning × Ledger σ := (l.warnings, { l with warnings := [] })

/-- A new ledger over the same backend. -/
def reopen (l : Ledger σ) : Ledger σ := fresh l.store

/-! ## What is kept of a month afterwards -/

theorem cached?_setMarks (l : Ledger σ) (month : Month) (ms : MonthMarks) (m : Month) :
    (l.setMarks month ms).cached? m = if m = month then some ms else l.cached? m := by
  simp only [cached?, setMarks, Entries.lookup_entry]
  rw [Entries.lookup_filter_keys (· != month)]
  by_cases h : m = month <;> simp [h]

theorem cached?_loaded_self (b : Backend σ) (month : Month) (l : Ledger σ) :
    (l.loaded b month).cached? month = some ((l.loaded b month).marks month) := by
  have : ∃ ms, (l.loaded b month).cached? month = some ms := by
    unfold loaded
    split
    · exact ⟨_, ‹_›⟩
    · split <;> exact ⟨_, List.lookup_cons_self⟩
  obtain ⟨ms, h⟩ := this
  rw [marks, h, Option.getD_some]

theorem cached?_loaded_of_ne (b : Backend σ) {month m : Month} (h : m ≠ month) (l : Ledger σ) :
    (l.loaded b month).cached? m = l.cached? m := by
  unfold loaded
  split
  · rfl
  · split <;> simp [cached?, Entries.lookup_entry, h]

theorem cached?_reset (b : Backend σ) (month : Month) (l : Ledger σ) (m : Month) :
    (l.reset b month).2.cached? m = if month ≤ m then l.cached? m else none := by
  simp only [cached?, reset]
  rw [Entries.lookup_filter_keys fun m => decide (month ≤ m)]
  simp

end Ledger

end OvertimeNotice
