import OvertimeNotice.Proofs.Files.Ways
import OvertimeNotice.Proofs.State.Durable
import OvertimeNotice.Proofs.State.MarkTable
import OvertimeNotice.State.Connection.Lemmas
import OvertimeNotice.State.Connection.Opening

/-!
# A database in use

From the moment its tables are there until it is closed, a database named by a plain path is in one
condition: its log is open, its file is as it was when last written to, and what it holds is known.
A call that changes the tables writes to the log and to nothing else.

* `World.InUse`: the condition.
* `InUse.run_change`: what a call does to it.
* `durable_backend`: as a backend, a database in use loses nothing.
-/

namespace OvertimeNotice

/-- The places of a database: its file, and the files that it may have beside it. -/
def Place.family (home : Place) : List Place :=
  [home, home.beside World.journalEnding, home.beside World.logEnding,
    home.beside World.indexEnding]

namespace Place

variable {home : Place}

theorem beside_injective (h : home ≠ []) {a b : String} (hab : home.beside a = home.beside b) :
    a = b := by
  cases home with
  | nil => exact absurd rfl h
  | cons name rest =>
    obtain ⟨h₁, -⟩ := List.cons_eq_cons.mp hab
    rw [String.ext_iff, String.toList_append, String.toList_append,
      List.append_cancel_left_eq] at h₁
    exact String.ext_iff.mpr h₁

theorem beside_ne_beside (h : home ≠ []) {a b : String} (hab : a ≠ b) :
    home.beside a ≠ home.beside b := fun he => hab (beside_injective h he)

theorem beside_ne_self (h : home ≠ []) {a : String} (ha : a ≠ "") : home.beside a ≠ home := by
  intro he
  refine ha (beside_injective h ?_)
  rw [he]
  cases home with
  | nil => rfl
  | cons name rest => simp [beside]

theorem tail_beside (home : Place) (a : String) : (home.beside a).tail = home.tail := by
  cases home <;> rfl

theorem mem_family {q : Place} : q ∈ home.family ↔ q = home ∨
    q = home.beside World.journalEnding ∨ q = home.beside World.logEnding ∨
      q = home.beside World.indexEnding := by
  simp [family]

end Place

namespace World

/-- The database `d` is in use, with its file at `home`. -/
structure InUse (home : Place) (d : Database) (w : World) : Prop where
  name : ∃ path, w.connection.name = .plain path
  place : w.connection.home? = some home
  log : w.connection.log = .opened
  steady : w.connection.astray = false
  content : w.connection.content = .database d true
  file : ∃ d₀, w.files.node? home = some (.file (.database d₀ true)) ∧
    (w.connection.changed = false → d₀ = d)
  journal : w.files.node? (home.beside journalEnding) = none
  logFile : ∃ c, w.files.node? (home.beside logEnding) = some (.file c)
  indexFile : ∃ c, w.files.node? (home.beside indexEnding) = some (.file c)

namespace InUse

variable {home : Place} {d d' : Database} {w : World}

theorem home_ne (h : InUse home d w) : home ≠ [] := by
  obtain ⟨d₀, hf, -⟩ := h.file
  rintro rfl
  exact nomatch Tree.isTop_of_file hf

theorem isOpen (h : InUse home d w) : w.IsOpen := by
  intro q hq
  rw [h.place, Option.mem_some_iff] at hq
  subst hq
  obtain ⟨d₀, hf, -⟩ := h.file
  exact ⟨h.log, by rw [hf]; rfl⟩

theorem isReadOnly (h : InUse home d w) : w.connection.isReadOnly = false := by
  obtain ⟨path, hn⟩ := h.name
  rw [Connection.isReadOnly, hn, h.log]
  rfl

theorem database? (h : InUse home d w) : w.connection.content.database? = some d := by
  rw [h.content]
  rfl

/-- What stands elsewhere does not matter. -/
theorem withFiles (h : InUse home d w) {t : Tree} (ht : Tree.Agree (· ∈ home.family) w.files t) :
    InUse home d { w with files := t } := by
  obtain ⟨d₀, hf, hd⟩ := h.file
  obtain ⟨c, hc⟩ := h.logFile
  obtain ⟨c', hc'⟩ := h.indexFile
  refine ⟨h.name, h.place, h.log, h.steady, h.content, ⟨d₀, ?_, hd⟩, ?_, ⟨c, ?_⟩, ⟨c', ?_⟩⟩
  · rw [ht _ (by simp [Place.family]), hf]
  · rw [ht _ (by simp [Place.family]), h.journal]
  · rw [ht _ (by simp [Place.family]), hc]
  · rw [ht _ (by simp [Place.family]), hc']

theorem met (h : InUse home d w) : InUse home d (w.met d) :=
  ⟨h.name, h.place, h.log, h.steady, h.content, h.file, h.journal, h.logFile, h.indexFile⟩

/-! ## Changes -/

/-- A change is kept in the log. -/
theorem run_commit (h : InUse home d w) (d' : Database) :
    ∃ v, (commit (.database d' true)).run.run w = (.ok (), v) ∧ InUse home d' v ∧
      Tree.Agree (· ≠ home.beside logEnding) w.files v.files := by
  obtain ⟨c, hc⟩ := h.logFile
  have hne : home ≠ home.beside logEnding := (Place.beside_ne_self h.home_ne (by decide)).symm
  have hother : ∀ a, a ≠ logEnding → home.beside a ≠ home.beside logEnding := fun a =>
    Place.beside_ne_beside h.home_ne
  have ha := Tree.agree_set_file hc (.file .logged)
  let v : World :=
    { files := w.files.set (home.beside logEnding) (.file .logged)
      connection := { w.connection with
        content := .database d' true, changed := true, bare := some d' == some .blank } }
  have hv : (commit (.database d' true)).run.run w = (.ok (), v) := by
    simp only [commit, run_bind, run_get, h.place, h.log, reduceCtorEq, if_false, extend, run_look,
      hc]
    rfl
  refine ⟨v, hv, ?_, ha⟩
  · obtain ⟨d₀, hf, -⟩ := h.file
    obtain ⟨c', hc'⟩ := h.indexFile
    refine ⟨h.name, h.place, h.log, h.steady, rfl, ⟨d₀, (ha _ hne).trans hf, by simp⟩,
      (ha _ (hother _ (by decide))).trans h.journal, ⟨.logged, ?_⟩,
      ⟨c', (ha _ (hother _ (by decide))).trans hc'⟩⟩
    exact (Tree.node?_set_file hc _ _).trans (if_pos rfl)

/-- A call that changes the tables makes the same change to a database in use. -/
theorem run_change {α : Type} {f : Database → Except DatabaseFault (α × Database)} {a : α}
    (h : InUse home d w) (hf : f d = .ok (a, d')) :
    ∃ v, (change f).run.run w = (.ok a, v) ∧ InUse home d' v ∧
      Tree.Agree (· ≠ home.beside logEnding) w.files v.files := by
  have hr : (w.met d).connection.isReadOnly = false := h.isReadOnly
  simp only [change, run_bind, run_meet h.isOpen h.database?, run_get, hr, Bool.false_eq_true,
    and_false, if_false, hf]
  by_cases hd : d' = d
  · subst hd
    exact ⟨w.met d', by simp; rfl, h.met, Tree.Agree.refl _ _⟩
  · obtain ⟨v, hv, huse, ha⟩ := h.met.run_commit d'
    have hc : (w.met d).connection.content.withDatabase d' = .database d' true := by
      rw [h.met.content]
      rfl
    rw [if_pos hd, hc, run_bind, hv]
    exact ⟨v, rfl, huse, ha⟩

theorem run_update {f : Database → Except DatabaseFault Database} (h : InUse home d w)
    (hf : f d = .ok d') : ∃ v, (update f).run.run w = (.ok (), v) ∧ InUse home d' v ∧
      Tree.Agree (· ≠ home.beside logEnding) w.files v.files :=
  h.run_change (by rw [hf]; rfl)

theorem run_update_of_error {f : Database → Except DatabaseFault Database} {e : DatabaseFault}
    (h : InUse home d w) (hf : f d = .error e) : (update f).run.run w = (.error e, w.met d) :=
  run_change_of_error h.isOpen h.isReadOnly h.database? (by rw [hf]; rfl)

theorem call_update {f : Database → Except DatabaseFault Database} (h : InUse home d w)
    (hf : f d = .ok d') : (call (update f) w).1 = .ok () ∧ InUse home d' (call (update f) w).2 ∧
      Tree.Agree (· ≠ home.beside logEnding) w.files (call (update f) w).2.files := by
  obtain ⟨v, hv, huse, ha⟩ := h.run_update hf
  rw [call, hv]
  exact ⟨rfl, huse, ha⟩

theorem call_update_of_error {f : Database → Except DatabaseFault Database} {e : DatabaseFault}
    (h : InUse home d w) (hf : f d = .error e) :
    call (update f) w = (.error (.database e), w.met d) := by
  rw [call, h.run_update_of_error hf]

end InUse

/-! ## As a backend -/

/-- The database is in use with its tables. Of what there was in `t`, its own files and places of
`K` may differ, but no directory is gone. -/
structure Serves (home : Place) (K : Place → Prop) (t : Tree) (w : World) : Prop where
  inUse : ∃ tables, InUse home (.ready tables) w
  others : Tree.Agree (fun q => q ∉ home.family ∧ ¬K q) t w.files
  grows : Tree.Grows t w.files

variable {home : Place} {K : Place → Prop} {w v : World} {t u : Tree} {tables : Tables}

theorem InUse.reading (h : InUse home (.ready tables) w) (month : Month) :
    backend.reading month w = .ok (tables.marksOf month) := by
  rw [Backend.reading, backend_load month h.isOpen h.database?]
  rfl

theorem agree_of_ne_log (h : Tree.Agree (· ≠ home.beside logEnding) t u) :
    Tree.Agree (· ∉ home.family) t u :=
  h.mono fun q hq he => hq (by rw [he]; simp [Place.family])

/-- A call that writes to the log only leaves the database in use. -/
theorem Serves.of_log (h : Serves home K t w) (hv : InUse home (.ready tables) v)
    (ha : Tree.Agree (· ≠ home.beside logEnding) w.files v.files) : Serves home K t v := by
  obtain ⟨tables', hw⟩ := h.inUse
  obtain ⟨c, hc⟩ := hw.logFile
  refine ⟨⟨tables, hv⟩, h.others.trans ((agree_of_ne_log ha).mono fun q hq => hq.1), ?_⟩
  exact h.grows.trans (Tree.grows_of_agree ha (by rw [hc]; simp))

/-- What changes at places of `K` alone does not matter. -/
theorem Serves.withFiles (h : Serves home K t w) (hK : ∀ q ∈ home.family, ¬K q)
    (ha : Tree.Agree (fun q => ¬K q) w.files u) (hg : Tree.Grows w.files u) :
    Serves home K t { w with files := u } := by
  obtain ⟨tables, hw⟩ := h.inUse
  exact ⟨⟨tables, hw.withFiles (ha.mono hK)⟩, h.others.trans (ha.mono fun q hq => hq.2),
    h.grows.trans hg⟩

/-- A database in use loses nothing. -/
theorem durable_backend (home : Place) (K : Place → Prop) (t : Tree) :
    backend.Durable (Serves home K t) where
  load {w} month hw := by
    obtain ⟨tables, h⟩ := hw.inUse
    have hl : (backend.load month w).2 = w.met (.ready tables) := by
      rw [backend_load month h.isOpen h.database?]
    rw [hl]
    exact ⟨⟨⟨tables, h.met⟩, hw.others, hw.grows⟩,
      fun m => (h.met.reading m).trans (h.reading m).symm⟩
  purge {w month} hw hm := by
    obtain ⟨tables, h⟩ := hw.inUse
    obtain ⟨v, hv, h', ha⟩ :=
      h.run_change (f := fun d => d.purgeMarks month) (Tables.purgeMarks_ready tables month)
    have hp : (backend.purge month w).2 = v := by
      simp only [backend, call, hv]
    rw [hp]
    refine ⟨hw.of_log h' ha, fun m hm' hle => ?_⟩
    rw [h'.reading, h.reading, Tables.marksOf_purged hm' hm hle]
  upsert_error {w e f} hw hm hu := by
    obtain ⟨tables, h⟩ := hw.inUse
    obtain ⟨hok, -⟩ :=
      h.call_update (f := fun d => d.upsertMark e) (Tables.upsertMark_ready tables e)
    cases hok.symm.trans hu
  upsert_ok {w e} hw hm hn hu := by
    obtain ⟨tables, h⟩ := hw.inUse
    obtain ⟨-, h', ha⟩ :=
      h.call_update (f := fun d => d.upsertMark e) (Tables.upsertMark_ready tables e)
    refine ⟨hw.of_log h' ha, fun m hm' hne => ?_, _, h'.reading _, ?_⟩
    · rw [h.reading]
      exact (h'.reading m).trans (by rw [Tables.marksOf_upserted_of_ne hne])
    · rw [h.reading]
      exact Tables.mem_marksOf_upserted hn

end World

end OvertimeNotice
