import OvertimeNotice.State.Connection.Calls

/-!
# What calls do in a world

* `run_bind` and the lemmas below it: what each step of a call answers, and the world after it.
* `run_read`, `run_change_of_error`: on an open database, a call that reads or fails is what it is
  on the tables.
* `backend_load`: an open database answers as its tables do.
-/

namespace OvertimeNotice

namespace World

/-! ## Steps -/

theorem run_bind {α β : Type} (x : Call α) (f : α → Call β) (w : World) :
    (x >>= f).run.run w =
      match x.run.run w with
      | (.ok a, v) => (f a).run.run v
      | (.error e, v) => (.error e, v) := by
  rw [ExceptT.run_bind, StateT.run_bind]
  rcases x.run.run w with ⟨a | a, v⟩ <;> rfl

theorem run_tryCatch {α : Type} (x : Call α) (f : DatabaseFault → Call α) (w : World) :
    (tryCatch x f).run.run w =
      match x.run.run w with
      | (.ok a, v) => (.ok a, v)
      | (.error e, v) => (f e).run.run v := by
  change (ExceptT.tryCatch x f).run.run w = _
  unfold ExceptT.tryCatch
  change StateT.run (m := Id) (x.run >>= _) w = _
  rw [StateT.run_bind]
  change (match x.run.run w with | (a, v) => _) = _
  rcases x.run.run w with ⟨a | a, v⟩ <;> rfl

theorem run_pure {α : Type} (a : α) (w : World) : (pure a : Call α).run.run w = (.ok a, w) := rfl

theorem run_get (w : World) : (get : Call World).run.run w = (.ok w, w) := rfl

theorem run_modify (f : World → World) (w : World) :
    (modify f : Call Unit).run.run w = (.ok (), f w) := rfl

theorem run_look (q : Place) (w : World) : (look q).run.run w = (.ok (w.files.node? q), w) := rfl

/-! ## Open databases -/

/-- The database has no file that matters, or its log is open and its file is what it was. -/
def IsOpen (w : World) : Prop :=
  ∀ home ∈ w.connection.home?, w.connection.log = .opened ∧
    isSpoilt w.connection (w.files.node? home) = false

/-- The world once a call has met the database. -/
def met (d : Database) (w : World) : World :=
  { w with connection := { w.connection with bare := d == .blank } }

variable {w : World} {d : Database}

/-- Nothing has to be put in order beside an open database. -/
theorem run_settle (h : w.IsOpen) : settle.run.run w = (.ok (), w) := by
  unfold settle
  rw [run_bind, run_get]
  dsimp only
  cases hh : w.connection.home? with
  | none => rfl
  | some home =>
    obtain ⟨hl, hs⟩ := h home hh
    simp only [hl]
    rw [run_bind, run_look]
    simp only [hs]
    rfl

theorem run_enter (h : w.IsOpen) (hd : w.connection.content.database? = some d) :
    enter.run.run w = (.ok d, w.met d) := by
  simp only [enter, seen, run_bind, run_settle h, run_get, hd, run_pure, run_modify, met]

theorem run_meet (h : w.IsOpen) (hd : w.connection.content.database? = some d) :
    meet.run.run w = (.ok d, w.met d) := by
  simp only [meet, run_tryCatch, run_enter h hd]

/-- A call that reads an open database reads its tables. -/
theorem run_read {α : Type} (f : Database → Except DatabaseFault α) (h : w.IsOpen)
    (hd : w.connection.content.database? = some d) :
    (read f).run.run w = (f d, w.met d) := by
  simp only [read, run_bind, run_meet h hd]
  cases f d <;> rfl

/-- A call that fails on the tables fails on an open database, which stays what it is. -/
theorem run_change_of_error {α : Type} {f : Database → Except DatabaseFault (α × Database)}
    {e : DatabaseFault} (h : w.IsOpen) (hw : w.connection.isReadOnly = false)
    (hd : w.connection.content.database? = some d) (hf : f d = .error e) :
    (change f).run.run w = (.error e, w.met d) := by
  have hr : (w.met d).connection.isReadOnly = false := hw
  simp only [change, run_bind, run_meet h hd, run_get, hr, Bool.false_eq_true, and_false, if_false,
    hf]
  rfl

/-! ## Open databases as backends -/

theorem backend_load (m : Month) (h : w.IsOpen)
    (hd : w.connection.content.database? = some d) :
    backend.load m w = ((Backend.database.load m d).1, w.met d) := by
  simp only [backend, call, run_read _ h hd, Backend.database]
  cases d.loadMarks m <;> rfl

end World

end OvertimeNotice
