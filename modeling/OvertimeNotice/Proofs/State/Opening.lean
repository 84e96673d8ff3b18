import OvertimeNotice.Proofs.State.Resting
import OvertimeNotice.Proofs.State.Serving

/-!
# Opening a database at rest

Opening a database that is at rest either fails and leaves it at rest, or brings it in use.

* `World.Found`: what opening finds, before a log is asked for.
* `World.connect_of_reaches`, `World.connect_unfit`, `World.connect_of_not_reaches`: the ways of
  opening one.
-/

namespace OvertimeNotice

namespace World

variable {home : Place} {d : Database} {w : World} {t : Tree}

/-- A database by a plain name that has just been found, with the content `c` and nothing beside
its file. -/
structure Found (home : Place) (c : Content) (w : World) : Prop where
  name : ∃ path, w.connection.name = .plain path
  place : w.connection.home? = some home
  log : w.connection.log = .closed
  changed : w.connection.changed = false
  steady : w.connection.astray = false
  content : w.connection.content = c
  file : w.files.node? home = some (.file c)
  noJournal : w.files.node? (home.beside journalEnding) = none
  noLog : w.files.node? (home.beside logEnding) = none
  noIndex : w.files.node? (home.beside indexEnding) = none

namespace Found

variable {c : Content}

theorem home_ne (h : Found home c w) : home ≠ [] := by
  rintro rfl
  exact nomatch Tree.isTop_of_file h.file

theorem met (h : Found home c w) (d : Database) : Found home c (w.met d) :=
  ⟨h.name, h.place, h.log, h.changed, h.steady, h.content, h.file, h.noJournal, h.noLog, h.noIndex⟩

theorem idle (h : Found home c w) : Idle home c w := by
  obtain ⟨path, hn⟩ := h.name
  refine ⟨h.place, h.log, h.steady, h.content, h.file, h.noJournal, h.noLog, fun hl => ?_⟩
  rw [hn] at hl
  exact nomatch hl

/-- An empty database is met as it is. -/
theorem run_enter_empty (h : Found home .nothing w) :
    enter.run.run w = (.ok .blank, w.met .blank) := by
  have hd : w.connection.content.database? = some .blank := by rw [h.content]; rfl
  have hs : settle.run.run w = (.ok (), w) := by
    rw [h.idle.run_settle (h.content ▸ hd)]
    rfl
  simp only [enter, seen, run_bind, hs, run_get, hd, run_pure, run_modify]
  rfl

/-- A log is opened beside a database that asks for one. -/
theorem run_openLog (h : Found home (.database d true) w) (hfits : fits home logEnding = true) :
    ∃ v, (openLog home).run.run w = (.ok (), v) ∧ InUse home d v ∧
      Tree.Agree (· ∉ home.family) w.files v.files := by
  obtain ⟨path, hn⟩ := h.name
  have hkeeps : w.connection.name.keepsLog = true := by rw [hn]; rfl
  have hindexed : w.connection.name.hasIndexFile = true := by rw [hn]; rfl
  have hreadOnly : w.connection.name.indexReadOnly = false := by rw [hn]; rfl
  have hup : w.files.node? home.tail = some .directory := Tree.node?_tail h.file
  have hself : ∀ a, a ≠ "" → home ≠ home.beside a := fun a ha =>
    (Place.beside_ne_self h.home_ne ha).symm
  have hother : ∀ a b, a ≠ b → home.beside a ≠ home.beside b := fun a b =>
    Place.beside_ne_beside h.home_ne
  let log := home.beside logEnding
  let index := home.beside indexEnding
  let t := w.files.set log (.file .nothing)
  have hlog := Tree.node?_set_new (t := w.files) (n := .file .nothing) h.noLog
    (by rw [Place.tail_beside]; exact hup)
  have hindex : t.node? index = none := by
    rw [hlog, if_neg (hother _ _ (by decide)), h.noIndex]
  have hup' : t.node? index.tail = some .directory := by
    rw [Place.tail_beside, hlog, if_neg, hup]
    intro he
    have := h.noLog
    rw [← he, hup] at this
    exact nomatch this
  have hset := Tree.node?_set_new (t := t) (n := .file .logged) hindex hup'
  let v : World :=
    { files := t.set index (.file .logged), connection := { w.connection with log := .opened } }
  have hv : (openLog home).run.run w = (.ok (), v) := by
    simp only [openLog, openIndex, run_bind, run_get, hkeeps, hindexed, hreadOnly, Bool.not_true,
      Bool.false_eq_true, if_false, run_look, h.file, h.noLog, hfits, Option.isNone_some, write,
      setLog, run_modify]
    rw [show (w.files.set (home.beside logEnding) (.file .nothing)).node?
      (home.beside indexEnding) = none from hindex]
    rfl
  have hkept : ∀ q, q ≠ log → q ≠ index → v.files.node? q = w.files.node? q := fun q h₁ h₂ => by
    rw [show v.files.node? q = _ from hset q, if_neg h₂, hlog, if_neg h₁]
  refine ⟨v, hv, ⟨h.name, h.place, rfl, h.steady, h.content, ⟨d, ?_, fun _ => rfl⟩, ?_,
    ⟨.nothing, ?_⟩, ⟨.logged, ?_⟩⟩, fun q hq => ?_⟩
  · rw [hkept _ (hself _ (by decide)) (hself _ (by decide)), h.file]
  · rw [hkept _ (hother _ _ (by decide)) (hother _ _ (by decide)), h.noJournal]
  · refine (hset _).trans ?_
    rw [if_neg (hother _ _ (by decide)), hlog, if_pos rfl]
  · exact (hset _).trans (if_pos rfl)
  · exact hkept q (fun he => hq (by simp [Place.family, he, log]))
      fun he => hq (by simp [Place.family, he, index])

/-- A database with a log is in use once it is met. -/
theorem run_enter_logged (h : Found home (.database d true) w)
    (hfits : fits home logEnding = true) :
    ∃ v, enter.run.run w = (.ok d, v) ∧ InUse home d v ∧
      Tree.Agree (· ∉ home.family) w.files v.files := by
  have hd : (Content.database d true).database? = some d := rfl
  obtain ⟨v, hv, huse, ha⟩ := h.run_openLog hfits
  have hs : settle.run.run w = (.ok (), v) := by
    rw [h.idle.run_settle hd]
    exact hv
  refine ⟨v.met d, ?_, huse.met, ha⟩
  simp only [enter, seen, run_bind, hs, run_get, huse.database?, run_pure, run_modify]
  rfl

/-! ## The first write -/

theorem isReadOnly (h : Found home c w) : w.connection.isReadOnly = false := by
  obtain ⟨path, hn⟩ := h.name
  rw [Connection.isReadOnly, hn, h.log]
  rfl

/-- Nothing is written where there is no room for the name of a journal. -/
theorem run_commit_unfit (h : Found home c w) (hfits : fits home journalEnding = false)
    (c' : Content) : (commit c').run.run w = (.error .cannotOpenFile, w) := by
  simp only [commit, replace, run_bind, run_get, h.place, h.log, if_true, run_look, h.file,
    h.steady, hfits, Option.isNone_some, Bool.or_self, Bool.false_and, Bool.false_eq_true, if_false,
    Bool.not_false]
  rfl

/-- A database without tables is made to keep a log. -/
theorem run_commit_blank (h : Found home c w) (hfits : fits home journalEnding = true) :
    ∃ v, (commit (.database .blank true)).run.run w = (.ok (), v) ∧
      Found home (.database .blank true) v ∧ Tree.Agree (· ≠ home) w.files v.files := by
  have ha := Tree.agree_set_file h.file (.file (.database .blank true))
  have hne : ∀ a, a ≠ "" → home.beside a ≠ home := fun a => Place.beside_ne_self h.home_ne
  let v : World :=
    { files := w.files.set home (.file (.database .blank true))
      connection := { w.connection with
        content := .database .blank true, bare := some Database.blank == some .blank } }
  have hdiscard : (discard (home.beside journalEnding)).run.run w = (.ok (), w) := by
    simp only [discard, run_modify, h.noJournal]
  have hfile : (some (Node.file c) != some .directory) = true := by simp
  have hv : (commit (.database .blank true)).run.run w = (.ok (), v) := by
    simp only [commit, replace, run_bind, run_get, h.place, h.log, if_true, run_look, h.file,
      h.steady, hfits, h.noJournal, Option.isNone_some, Bool.or_self, Bool.false_and,
      Bool.false_eq_true, if_false, Bool.not_true, reduceCtorEq, decide_false, hdiscard, hfile,
      Bool.not_false, Bool.and_self]
    rfl
  refine ⟨v, hv, ⟨h.name, h.place, h.log, h.changed, h.steady, rfl, ?_,
    (ha _ (hne _ (by decide))).trans h.noJournal, (ha _ (hne _ (by decide))).trans h.noLog,
    (ha _ (hne _ (by decide))).trans h.noIndex⟩, ha⟩
  exact (Tree.node?_set_file h.file _ _).trans (if_pos rfl)

/-! ## Asking for a log -/

theorem run_startLog_empty (h : Found home .nothing w) (hfits : fits home journalEnding = true) :
    ∃ v, startLog.run.run w = (.ok (), v) ∧ Found home (.database .blank true) v ∧
      Tree.Agree (· ≠ home) w.files v.files := by
  obtain ⟨path, hn⟩ := h.name
  have hm := h.met .blank
  have hkeeps : (w.met .blank).connection.name.keepsLog = true := by
    rw [show (w.met .blank).connection.name = _ from hn]
    rfl
  obtain ⟨v, hv, hf, ha⟩ := hm.run_commit_blank hfits
  refine ⟨v, ?_, hf, ha⟩
  simp only [startLog, run_bind, h.run_enter_empty, run_get, hm.place, hm.log, hkeeps,
    Option.isSome_some, and_self, if_true, hm.isReadOnly, Bool.false_eq_true, if_false, hv]

theorem run_startLog_unfit (h : Found home .nothing w) (hfits : fits home journalEnding = false) :
    startLog.run.run w = (.error .cannotOpenFile, w.met .blank) := by
  obtain ⟨path, hn⟩ := h.name
  have hm := h.met .blank
  have hkeeps : (w.met .blank).connection.name.keepsLog = true := by
    rw [show (w.met .blank).connection.name = _ from hn]
    rfl
  simp only [startLog, run_bind, h.run_enter_empty, run_get, hm.place, hm.log, hkeeps,
    Option.isSome_some, and_self, if_true, hm.isReadOnly, Bool.false_eq_true, if_false,
    hm.run_commit_unfit hfits]

theorem run_startLog_logged (h : Found home (.database d true) w)
    (hfits : fits home logEnding = true) :
    ∃ v, startLog.run.run w = (.ok (), v) ∧ InUse home d v ∧
      Tree.Agree (· ∉ home.family) w.files v.files := by
  obtain ⟨v, hv, huse, ha⟩ := h.run_enter_logged hfits
  refine ⟨v, ?_, huse, ha⟩
  simp only [startLog, run_bind, hv, run_get, huse.log, reduceCtorEq, false_and, and_false,
    if_false]
  rfl

end Found

/-! ## Making the tables -/

theorem run_migrate_of_enter {v : World} {path : String} (hn : w.connection.name = .plain path)
    (he : enter.run.run w = (.ok d, v)) (h : InUse home d v) :
    ∃ tables v', migrate.run.run w = (.ok (), v') ∧ d.migrate = .ready tables ∧
      InUse home (.ready tables) v' ∧ Tree.Agree (· ∉ home.family) v.files v'.files := by
  have hr : w.connection.name.isReadOnly = false := by rw [hn]; rfl
  have hc : ∀ d', v.connection.content.withDatabase d' = .database d' true := fun d' => by
    rw [h.content]
    rfl
  cases d with
  | blank =>
    obtain ⟨v', hv', huse, ha⟩ := h.run_commit (.ready Tables.empty)
    refine ⟨Tables.empty, v', ?_, rfl, huse, agree_of_ne_log ha⟩
    simp only [migrate, run_bind, run_get, hr, Bool.false_eq_true, and_false, if_false, he,
      if_true, h.isReadOnly, hc, Database.migrate, hv']
  | ready tables =>
    refine ⟨tables, v, ?_, rfl, h, .refl _ _⟩
    simp only [migrate, run_bind, run_get, hr, Bool.false_eq_true, and_false, if_false, he,
      run_pure, reduceCtorEq]

theorem Found.run_migrate_unfit (h : Found home .nothing w)
    (hfits : fits home journalEnding = false) :
    migrate.run.run w = (.error .cannotOpenFile, w.met .blank) := by
  obtain ⟨path, hn⟩ := h.name
  have hr : w.connection.name.isReadOnly = false := by rw [hn]; rfl
  have hm := h.met .blank
  simp only [migrate, run_bind, run_get, hr, Bool.false_eq_true, and_false, if_false,
    h.run_enter_empty, if_true, hm.isReadOnly, hm.run_commit_unfit hfits]

/-! ## By name -/

/-- A text that names the file of a database by its path and nothing else. -/
structure NamesFile (text : String) : Prop where
  plain : DatabaseName.ofText? text = .ok (.plain text)
  lasting : (DatabaseName.plain text).isTransient = false

/-- The file of a database can be got at. -/
def Reaches (t : Tree) (text : String) (home : Place) : Prop :=
  home? t text = some home ∧ t.node? home.tail = some .directory

variable {text : String}

theorem attach_of_reaches (hp : NamesFile text) (hr : t.Rests home d) (h : Reaches t text home) :
    ∃ c w, attach? t text = .ok w ∧ Found home c w ∧ Tree.Agree (· ≠ home) t w.files ∧
      (c = .database d true ∧ fits home journalEnding = true ∨ c = .nothing ∧ d = .blank) := by
  obtain ⟨hhome, hup⟩ := h
  let w (c : Content) (t : Tree) : World :=
    { files := t
      connection :=
        { name := .plain text, content := c, home? := some home, log := .closed, changed := false
          fresh := c.database? == some .blank, bare := false, astray := false } }
  have hattach : ∀ c u, openFile t text (.plain text) home = .ok (c, u) →
      attach? t text = .ok (w c u) := by
    intro c u ho
    simp only [attach?, hp.plain, hp.lasting, bind, Except.bind, Bool.false_eq_true, if_false,
      show (DatabaseName.plain text).path = text from rfl, hhome, ho,
      show (DatabaseName.plain text).immutable = false from rfl, w]
  have hmode : hasMode t (.plain text) = true := rfl
  rcases hr.file with ⟨hf, hfits⟩ | ⟨rfl, hnone | hf⟩
  · refine ⟨.database d true, w (.database d true) t, hattach _ _ ?_,
      ⟨⟨text, rfl⟩, rfl, rfl, rfl, rfl, rfl, hf, hr.journal, hr.log, hr.index⟩, .refl _ _,
      .inl ⟨rfl, hfits⟩⟩
    simp only [openFile, hmode, hf, Bool.not_true, Bool.false_eq_true, if_false]
  · have ha := Tree.agree_set_new hnone hup (.file .nothing)
    have hne : ∀ a, a ≠ "" → home.beside a ≠ home := fun a => Place.beside_ne_self (by
      rintro rfl
      exact nomatch Tree.isTop_of_none hnone)
    refine ⟨.nothing, w .nothing (t.set home (.file .nothing)), hattach _ _ ?_,
      ⟨⟨text, rfl⟩, rfl, rfl, rfl, rfl, rfl, ?_, (ha _ (hne _ (by decide))).trans hr.journal,
        (ha _ (hne _ (by decide))).trans hr.log, (ha _ (hne _ (by decide))).trans hr.index⟩, ha,
      .inr ⟨rfl, rfl⟩⟩
    · simp only [openFile, hmode, hnone, hup, Bool.not_true, Bool.false_eq_true, if_false,
        show (DatabaseName.plain text).access = .create from rfl, and_self, if_true]
    · exact (Tree.node?_set_new hnone hup _ _).trans (if_pos rfl)
  · refine ⟨.nothing, w .nothing t, hattach _ _ ?_,
      ⟨⟨text, rfl⟩, rfl, rfl, rfl, rfl, rfl, hf, hr.journal, hr.log, hr.index⟩, .refl _ _,
      .inr ⟨rfl, rfl⟩⟩
    simp only [openFile, hmode, hf, Bool.not_true, Bool.false_eq_true, if_false]

/-- A name with room for the ending of a journal has room for that of a log. -/
theorem fits_logEnding (h : fits home journalEnding = true) : fits home logEnding = true := by
  have hj : journalEnding.utf8ByteSize = 8 := by decide
  have hl : logEnding.utf8ByteSize = 4 := by decide
  rw [fits, decide_eq_true_iff] at h ⊢
  omega

/-- A database that can be got at is brought in use. -/
theorem connect_of_reaches (hp : NamesFile text) (hr : t.Rests home d) (h : Reaches t text home)
    (hfits : fits home journalEnding = true) :
    ∃ w w' tables, connect? t text = .ok w ∧ call migrate w = (.ok (), w') ∧
      d.migrate = .ready tables ∧ InUse home (.ready tables) w' ∧
      Tree.Agree (· ∉ home.family) t w'.files := by
  obtain ⟨c, w, hw, hfound, ha, hc⟩ := attach_of_reaches hp hr h
  have hfamily : Tree.Agree (· ∉ home.family) t w.files :=
    ha.mono fun q hq he => hq (by rw [he]; simp [Place.family])
  have hlog := fits_logEnding hfits
  rcases hc with ⟨rfl, -⟩ | ⟨rfl, rfl⟩
  · obtain ⟨v, hv, huse, ha₁⟩ := hfound.run_startLog_logged hlog
    obtain ⟨path, hn⟩ := huse.name
    obtain ⟨tables, v', hv', hd, huse', ha₂⟩ := run_migrate_of_enter hn
      (run_enter huse.isOpen huse.database?) huse.met
    refine ⟨v, v', tables, ?_, ?_, hd, huse', (hfamily.trans ha₁).trans ha₂⟩
    · rw [connect?, hw, Except.map, hv]
    · rw [call, hv']
  · obtain ⟨v, hv, hfound', ha₁⟩ := hfound.run_startLog_empty hfits
    obtain ⟨path, hn⟩ := hfound'.name
    obtain ⟨u, hu, huse, ha₂⟩ := hfound'.run_enter_logged hlog
    obtain ⟨tables, v', hv', hd, huse', ha₃⟩ := run_migrate_of_enter hn hu huse
    refine ⟨v, v', tables, ?_, ?_, hd, huse', ?_⟩
    · rw [connect?, hw, Except.map, hv]
    · rw [call, hv']
    · have hfile : Tree.Agree (· ∉ home.family) w.files v.files :=
        ha₁.mono fun q hq he => hq (by rw [he]; simp [Place.family])
      exact ((hfamily.trans hfile).trans ha₂).trans ha₃

/-- Where there is no room for the name of a journal, an empty file may be left, and no more. -/
theorem connect_unfit (hp : NamesFile text) (hr : t.Rests home d) (h : Reaches t text home)
    (hfits : fits home journalEnding = false) :
    ∃ w w' f, connect? t text = .ok w ∧ call migrate w = (.error f, w') ∧ w'.close.Rests home d ∧
      Tree.Agree (· ≠ home) t w'.close := by
  obtain ⟨c, w, hw, hfound, ha, hc⟩ := attach_of_reaches hp hr h
  obtain ⟨rfl, rfl⟩ := hc.resolve_left fun hc => by
    rw [hfits] at hc
    exact nomatch hc.2
  have hclose : ((w.met .blank).met .blank).close = w.files := by
    have hl : ((w.met .blank).met .blank).connection.log = .closed := hfound.log
    have hh : ((w.met .blank).met .blank).connection.home? = some home := hfound.place
    simp only [close, hh, hl]
    rfl
  refine ⟨w.met .blank, (w.met .blank).met .blank, .database .cannotOpenFile, ?_, ?_, ?_,
    hclose ▸ ha⟩
  · rw [connect?, hw, Except.map, hfound.run_startLog_unfit hfits]
  · rw [call, (hfound.met .blank).run_migrate_unfit hfits]
  · rw [hclose]
    exact ⟨.inr ⟨rfl, .inr hfound.file⟩, hfound.noJournal, hfound.noLog, hfound.noIndex⟩

theorem spell?_eq_some {q r : Place} {step : String} (h : spell? t q step = some r) :
    r = q.follow step := by
  unfold spell? at h
  split at h
  · exact (Option.some.inj h).symm
  split at h
  · exact nomatch h
  split at h
  · exact nomatch h
  · split at h
    · exact nomatch h
    · exact (Option.some.inj h).symm
  · exact (Option.some.inj h).symm

theorem spell?_congr {u : Tree} {q : Place} (h : u.node? q = t.node? q) (step : String) :
    spell? u q step = spell? t q step := by
  rw [spell?, spell?, h]

theorem foldlM_spell?_eq_some {p : Path} {q r : Place} (h : p.foldlM (spell? t) q = some r) :
    r = p.foldl Place.follow q := by
  induction p generalizing q with
  | nil => exact (Option.some.inj h).symm
  | cons step p ih =>
    rw [List.foldlM_cons, Option.bind_eq_bind, Option.bind_eq_some_iff] at h
    obtain ⟨q', hq', h⟩ := h
    rw [List.foldl_cons, ← spell?_eq_some hq']
    exact ih h

theorem foldlM_spell?_congr {u : Tree} {p : Path} {q : Place}
    (h : Tree.Agree (· ∈ (Path.passedFrom q p).dropLast) t u) :
    p.foldlM (spell? u) q = p.foldlM (spell? t) q := by
  induction p generalizing q with
  | nil => rfl
  | cons step p ih =>
    have hpassed : (Path.passedFrom q (step :: p)).dropLast =
        q :: (Path.passedFrom (q.follow step) p).dropLast := by
      cases p <;> rfl
    rw [hpassed] at h
    rw [List.foldlM_cons, List.foldlM_cons, spell?_congr (h q List.mem_cons_self)]
    cases hs : spell? t q step with
    | none => rfl
    | some r =>
      obtain rfl := spell?_eq_some hs
      exact ih (h.mono fun r hr => List.mem_cons_of_mem _ hr)

theorem home?_eq_place {path : String} {q : Place} (h : home? t path = some q) :
    q = (Path.ofText path).place := by
  rw [home?, Option.bind_eq_bind, Option.bind_eq_some_iff] at h
  obtain ⟨r, hr, h⟩ := h
  split at h
  · exact nomatch h
  · rw [← Option.some.inj h]
    exact foldlM_spell?_eq_some hr

/-- Where a database is depends on what the path passes before its end. -/
theorem home?_congr {u : Tree} {path : String}
    (h : Tree.Agree (· ∈ (Path.ofText path).passes.dropLast) t u) :
    home? u path = home? t path := by
  rw [home?, home?, foldlM_spell?_congr h]

/-- A database that cannot be got at is not opened. -/
theorem connect_of_not_reaches (hp : NamesFile text) (hplace : home = (Path.ofText text).place)
    (h : ¬Reaches t text home) : ∃ f, connect? t text = .error f := by
  cases hhome : home? t text with
  | none =>
    refine ⟨.cannotOpen text, ?_⟩
    simp only [connect?, attach?, hp.plain, hp.lasting, bind, Except.bind, Bool.false_eq_true,
      if_false, show (DatabaseName.plain text).path = text from rfl, hhome, Except.map]
  | some q =>
    obtain rfl : q = home := (home?_eq_place hhome).trans hplace.symm
    have hup : t.node? q.tail ≠ some .directory := fun hup => h ⟨hhome, hup⟩
    have hnone : t.node? q = none := by
      cases hq : t.node? q with
      | none => rfl
      | some n => exact absurd (Tree.node?_tail hq) hup
    refine ⟨.cannotOpen text, ?_⟩
    simp only [connect?, attach?, hp.plain, hp.lasting, bind, Except.bind, Bool.false_eq_true,
      if_false, show (DatabaseName.plain text).path = text from rfl, hhome, openFile, hnone,
      show hasMode t (.plain text) = true from rfl, hup, and_false, Bool.not_true, Except.map]

end World

end OvertimeNotice
