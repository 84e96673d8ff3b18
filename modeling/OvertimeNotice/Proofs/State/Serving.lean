import OvertimeNotice.Proofs.State.InUse

/-!
# Databases that take calls

A database takes calls if nothing stands in their way: its log is open, or it has none and nothing
is beside its file, or no file matters to it, as in memory. A call then answers from the tables and
changes them, and the database takes calls afterwards.

* `World.Logged`, `World.Idle`: a database with an open log, and one with nothing beside its file.
* `World.Serving`: a database that takes calls.
* `Serving.call_read`, `Serving.call_change`: what a call does to it; `Serving.load_eq`,
  `Serving.upsert_eq`, `Serving.purge_eq` for the calls of a backend.
-/

namespace OvertimeNotice

namespace World

variable {home : Place} {d d' : Database} {c : Content} {w : World}

/-! ## With a log -/

/-- A database whose changes go to an open log. -/
structure Logged (home : Place) (d : Database) (w : World) : Prop where
  place : w.connection.home? = some home
  log : w.connection.log = .opened
  content : w.connection.content.database? = some d
  file : ∃ d₀ b, w.files.node? home = some (.file (.database d₀ b))

namespace Logged

theorem isOpen (h : Logged home d w) : w.IsOpen := by
  intro q hq
  rw [h.place, Option.mem_some_iff] at hq
  subst hq
  obtain ⟨d₀, b, hf⟩ := h.file
  exact ⟨h.log, by rw [hf]; rfl⟩

theorem met (h : Logged home d w) : Logged home d (w.met d) := ⟨h.place, h.log, h.content, h.file⟩

/-- A change is written to the log, if the log is still there. -/
theorem run_commit (h : Logged home d w) (hc : c.database? = some d') :
    ∃ v, (commit c).run.run w = (.ok (), v) ∧ Logged home d' v ∧
      v.connection.name = w.connection.name ∧ v.connection.log = w.connection.log := by
  obtain ⟨d₀, b, hf⟩ := h.file
  have hne : home ≠ home.beside logEnding := by
    refine (Place.beside_ne_self ?_ (by decide)).symm
    rintro rfl
    exact nomatch Tree.isTop_of_file hf
  let v (t : Tree) : World :=
    { files := t
      connection := { w.connection with
        content := c, changed := true, bare := c.database? == some .blank } }
  suffices h' : ∃ t : Tree, (commit c).run.run w = (.ok (), v t) ∧
      t.node? home = w.files.node? home by
    obtain ⟨t, hv, hnode⟩ := h'
    exact ⟨v t, hv, ⟨h.place, h.log, hc, d₀, b, hnode.trans hf⟩, rfl, rfl⟩
  simp only [commit, run_bind, run_get, h.place, h.log, reduceCtorEq, if_false, extend, run_look]
  rcases hn : w.files.node? (home.beside logEnding) with _ | _ | c'
  · exact ⟨w.files, rfl, rfl⟩
  · exact ⟨w.files, rfl, rfl⟩
  · exact ⟨w.files.set (home.beside logEnding) (.file .logged), rfl,
      (Tree.node?_set_file hn _ _).trans (if_neg hne)⟩

end Logged

/-! ## Without a log -/

/-- A database with the content `c`, in its file as well, and nothing else beside it. -/
structure Idle (home : Place) (c : Content) (w : World) : Prop where
  place : w.connection.home? = some home
  log : w.connection.log = .closed
  steady : w.connection.astray = false
  content : w.connection.content = c
  file : w.files.node? home = some (.file c)
  noJournal : w.files.node? (home.beside journalEnding) = none
  noLog : w.files.node? (home.beside logEnding) = none
  unlocked : w.connection.name.hasLockDirectory = true →
    w.files.node? (home.beside lockEnding) = none ∧ fits home lockEnding = true

namespace Idle

theorem home_ne (h : Idle home c w) : home ≠ [] := by
  rintro rfl
  exact nomatch Tree.isTop_of_file h.file

theorem met (h : Idle home c w) (d : Database) : Idle home c (w.met d) :=
  ⟨h.place, h.log, h.steady, h.content, h.file, h.noJournal, h.noLog, h.unlocked⟩

theorem run_lock (h : Idle home c w) : (lock home).run.run w = (.ok (), w) := by
  simp only [lock, run_bind, run_get]
  split
  · rename_i hl
    obtain ⟨hnone, hfits⟩ := h.unlocked hl
    simp only [run_bind, run_look, hnone, hfits, Tree.node?_tail h.file, Option.isSome_none,
      Bool.false_eq_true, if_false, Bool.not_true, bne_self_eq_false, Bool.or_self, run_pure]
  · rfl

theorem run_refresh (h : Idle home c w) : (refresh home).run.run w = (.ok (), w) := by
  have hs : (!w.connection.astray) = true := by rw [h.steady]; rfl
  have hsee : (see c).run.run w = (.ok (), w) := by
    rw [← h.content]
    rfl
  simp only [refresh, run_bind, run_get, hs, if_true, run_look, h.file, hsee]

theorem run_settleJournal (h : Idle home c w) : (settleJournal home).run.run w = (.ok (), w) := by
  simp only [settleJournal, run_bind, run_get, journalIsHeld, run_look, run_pure]
  split
  · simp only [run_bind, run_look, h.noJournal, run_pure]
  · rfl

theorem run_settleLog (h : Idle home c w) : (settleLog home).run.run w = (.ok (), w) := by
  simp only [settleLog, run_bind, run_get, run_look, h.noLog, run_pure]

/-- Nothing has to be put in order before a log is opened, if there is a log. -/
theorem run_settle (h : Idle home c w) (hd : c.database? = some d) :
    settle.run.run w = (if c.isLogged then openLog home else pure ()).run.run w := by
  simp only [settle, run_bind, run_get, h.place, h.log, h.run_lock, h.run_refresh,
    h.run_settleJournal, h.run_settleLog, seen, h.content, hd, run_pure, true_and]

/-- A change is written to the file, if there is room for a journal. -/
theorem run_commit (h : Idle home (.database d false) w) (hfits : fits home journalEnding = true)
    (d' : Database) :
    ∃ v, (commit (.database d' false)).run.run w = (.ok (), v) ∧
      Idle home (.database d' false) v ∧
      v.connection.name = w.connection.name ∧ v.connection.log = w.connection.log := by
  let v : World :=
    { files := w.files.set home (.file (.database d' false))
      connection := { w.connection with
        home? := some home, content := .database d' false, log := .closed
        bare := some d' == some .blank, astray := false } }
  have hv : (commit (.database d' false)).run.run w = (.ok (), v) := by
    have hnode : (some (Node.file (.database d false)) != some .directory) = true :=
      bne_iff_ne.mpr nofun
    simp only [commit, replace, discard, write, see, run_bind, run_get, run_modify, h.place, h.log,
      if_true, run_look, h.file, h.steady, h.noJournal, hfits, Option.isNone_some, Bool.or_self,
      Bool.false_and, Bool.false_eq_true, if_false, Bool.not_true, Bool.not_false, reduceCtorEq,
      decide_false, hnode, Bool.and_self]
    rfl
  have hother : ∀ a, a ≠ "" → v.files.node? (home.beside a) = w.files.node? (home.beside a) :=
    fun a ha => (Tree.node?_set_file h.file _ _).trans (if_neg (Place.beside_ne_self h.home_ne ha))
  refine ⟨v, hv, ⟨rfl, rfl, rfl, rfl, (Tree.node?_set_file h.file _ _).trans (if_pos rfl),
    (hother _ (by decide)).trans h.noJournal, (hother _ (by decide)).trans h.noLog,
    fun hl => ?_⟩, rfl, h.log.symm⟩
  obtain ⟨hnone, hroom⟩ := h.unlocked hl
  exact ⟨(hother _ (by decide)).trans hnone, hroom⟩

end Idle

/-! ## Taking calls -/

/-- The database `d` takes calls: it is kept with a log, without one, or apart from all files. -/
inductive Serving (d : Database) (w : World) : Prop
  | logged {home : Place} (h : Logged home d w) (writable : w.connection.isReadOnly = false)
  | unlogged {home : Place} (h : Idle home (.database d false) w)
    (room : fits home journalEnding = true) (writable : w.connection.isReadOnly = false)
  | apart (place : w.connection.home? = none) (content : w.connection.content.database? = some d)
    (writable : w.connection.isReadOnly = false)

namespace Serving

theorem isReadOnly (h : Serving d w) : w.connection.isReadOnly = false := by
  cases h with
  | logged _ writable => exact writable
  | unlogged _ _ writable => exact writable
  | apart _ _ writable => exact writable

theorem database? (h : Serving d w) : w.connection.content.database? = some d := by
  cases h with
  | logged h => exact h.content
  | unlogged h => rw [h.content]; rfl
  | apart _ content => exact content

theorem met (h : Serving d w) : Serving d (w.met d) := by
  cases h with
  | logged h writable => exact .logged h.met writable
  | unlogged h room writable => exact .unlogged (h.met d) room writable
  | apart place content writable => exact .apart place content writable

theorem run_meet (h : Serving d w) : meet.run.run w = (.ok d, w.met d) := by
  have hsettle : settle.run.run w = (.ok (), w) := by
    cases h with
    | logged h => exact run_settle h.isOpen
    | unlogged h => exact h.run_settle rfl
    | apart place => exact run_settle (by simp [IsOpen, place])
  have henter : enter.run.run w = (.ok d, w.met d) := by
    simp only [enter, seen, run_bind, hsettle, run_get, h.database?, run_pure, run_modify,
      World.met]
  simp only [meet, run_tryCatch, henter]

theorem run_commit (h : Serving d w) (d' : Database) :
    ∃ v, (commit (w.connection.content.withDatabase d')).run.run w = (.ok (), v) ∧
      Serving d' v := by
  cases h with
  | logged h writable =>
    have hd : (w.connection.content.withDatabase d').database? = some d' := rfl
    obtain ⟨v, hv, h', hname, hlog⟩ := h.run_commit hd
    exact ⟨v, hv, .logged h' (by rw [Connection.isReadOnly, hname, hlog]; exact writable)⟩
  | unlogged h room writable =>
    obtain ⟨v, hv, h', hname, hlog⟩ := h.run_commit room d'
    rw [h.content]
    exact ⟨v, hv, .unlogged h' room (by rw [Connection.isReadOnly, hname, hlog]; exact writable)⟩
  | apart place _ writable =>
    let v : World :=
      { w with connection := { w.connection with
        home? := none, content := w.connection.content.withDatabase d'
        bare := some d' == some .blank } }
    have hv : (commit (w.connection.content.withDatabase d')).run.run w = (.ok (), v) := by
      simp only [commit, see, run_bind, run_get, run_modify, place]
      rfl
    exact ⟨v, hv, .apart rfl rfl writable⟩

/-- A call that reads reads the tables. -/
theorem call_read {α : Type} {f : Database → Except DatabaseFault α} {a : α} (h : Serving d w)
    (hf : f d = .ok a) : call (read f) w = (.ok a, w.met d) := by
  simp only [call, read, run_bind, h.run_meet, hf, run_pure]

/-- A call that changes the tables makes the same change, and calls are taken as before. -/
theorem call_change {α : Type} {f : Database → Except DatabaseFault (α × Database)} {a : α}
    (h : Serving d w) (hf : f d = .ok (a, d')) :
    ∃ v, call (change f) w = (.ok a, v) ∧ Serving d' v := by
  have hr : (w.met d).connection.isReadOnly = false := h.isReadOnly
  simp only [call, change, run_bind, h.run_meet, run_get, hr, Bool.false_eq_true, and_false,
    if_false, hf]
  by_cases hd : d' = d
  · subst hd
    exact ⟨w.met d', by simp only [ne_eq, not_true_eq_false, if_false, run_pure], h.met⟩
  · obtain ⟨v, hv, h'⟩ := h.met.run_commit d'
    exact ⟨v, by simp only [ne_eq, hd, not_false_eq_true, if_true, run_bind, hv, run_pure], h'⟩

variable {tables : Tables}

/-! ### As a backend -/

theorem load_eq (h : Serving (.ready tables) w) (month : Month) :
    backend.load month w = (.ok (tables.marksOf month), w.met (.ready tables)) :=
  h.call_read (Tables.loadMarks_ready tables month)

theorem upsert_eq (h : Serving (.ready tables) w) (e : Mark) :
    ∃ v, backend.upsert e w = (.ok (), v) ∧ Serving (.ready (tables.upserted e)) v := by
  have hf : ((Database.ready tables).upsertMark e).map (fun d' => ((), d')) =
      .ok ((), .ready (tables.upserted e)) := by
    rw [Tables.upsertMark_ready]
    rfl
  exact h.call_change (f := fun d => (d.upsertMark e).map fun d' => ((), d')) hf

theorem purge_eq (h : Serving (.ready tables) w) (month : Month) :
    ∃ v, backend.purge month w =
        (.ok (tables.marks.length - (tables.purged month).marks.length), v) ∧
      Serving (.ready (tables.purged month)) v :=
  h.call_change (f := fun d => d.purgeMarks month) (Tables.purgeMarks_ready tables month)

end Serving

/-- A database in use takes calls. -/
theorem InUse.serving (h : InUse home d w) : Serving d w := by
  obtain ⟨d₀, hf, -⟩ := h.file
  exact .logged ⟨h.place, h.log, h.database?, d₀, true, hf⟩ h.isReadOnly

end World

end OvertimeNotice
