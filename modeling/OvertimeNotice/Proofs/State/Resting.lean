import OvertimeNotice.Proofs.State.InUse

/-!
# A database at rest

Between invocations a database is one file, or not there yet, and nothing is beside it. Closing a
database that is in use brings it to rest.

* `Tree.Rests`: the condition.
* `World.close_rests`: a database that is closed is at rest.
-/

namespace OvertimeNotice

/-- The database `d` is at rest at `home`: its file holds it, or is empty or missing if there are no
tables, and nothing is beside it. -/
structure Tree.Rests (t : Tree) (home : Place) (d : Database) : Prop where
  file : t.node? home = some (.file (.database d true)) ∧
      World.fits home World.journalEnding = true ∨
    d = .blank ∧ (t.node? home = none ∨ t.node? home = some (.file .nothing))
  journal : t.node? (home.beside World.journalEnding) = none
  log : t.node? (home.beside World.logEnding) = none
  index : t.node? (home.beside World.indexEnding) = none

namespace World

variable {home : Place} {d : Database} {w : World} {t : Tree}

/-! ## Closing -/

theorem run_discard (q : Place) (w : World) : ∃ v, (discard q).run.run w = (.ok (), v) ∧
    v.connection = w.connection ∧ Tree.Agree (· ≠ q) w.files v.files ∧
      ∀ c, w.files.node? q = some (.file c) → v.files.node? q = none := by
  cases hq : w.files.node? q with
  | none =>
    refine ⟨w, ?_, rfl, .refl _ _, by simp⟩
    simp only [discard, run_modify, hq]
  | some n =>
    cases n with
    | directory =>
      refine ⟨w, ?_, rfl, .refl _ _, by simp⟩
      simp only [discard, run_modify, hq]
    | file c =>
      refine ⟨{ w with files := w.files.erase q }, ?_, rfl, Tree.agree_erase hq, fun c' _ => ?_⟩
      · simp only [discard, run_modify, hq]
      · exact (Tree.node?_erase w.files hq q).trans (if_pos rfl)

/-- Files that are removed for good: what is left of the files of a database is its own file. -/
theorem run_finish_rest (h : InUse home d w)
    (hfile : w.files.node? home = some (.file (.database d true))) :
    ∃ v, (do discard (home.beside logEnding); discard (home.beside indexEnding)).run.run w =
        (.ok (), v) ∧
      v.files.node? home = some (.file (.database d true)) ∧
      v.files.node? (home.beside journalEnding) = none ∧
      v.files.node? (home.beside logEnding) = none ∧
      v.files.node? (home.beside indexEnding) = none ∧
      Tree.Agree (· ∉ home.family) w.files v.files := by
  obtain ⟨c, hc⟩ := h.logFile
  obtain ⟨c', hc'⟩ := h.indexFile
  have hne := h.home_ne
  have hself : ∀ a, a ≠ "" → home ≠ home.beside a := fun a ha => (Place.beside_ne_self hne ha).symm
  have hother : ∀ a b, a ≠ b → home.beside a ≠ home.beside b := fun a b =>
    Place.beside_ne_beside hne
  obtain ⟨v, hv, -, ha, hgone⟩ := run_discard (home.beside logEnding) w
  obtain ⟨v', hv', -, ha', hgone'⟩ := run_discard (home.beside indexEnding) v
  refine ⟨v', by rw [run_bind, hv]; exact hv', ?_, ?_, ?_, ?_, ?_⟩
  · rw [ha' _ (hself _ (by decide)), ha _ (hself _ (by decide)), hfile]
  · rw [ha' _ (hother _ _ (by decide)), ha _ (hother _ _ (by decide)), h.journal]
  · rw [ha' _ (hother _ _ (by decide)), hgone _ hc]
  · exact hgone' _ (by rw [ha _ (hother _ _ (by decide)), hc'])
  · refine (ha.mono fun q hq he => hq ?_).trans (ha'.mono fun q hq he => hq ?_) <;>
      simp [Place.family, he]

/-- The changes are brought from the log to the file. -/
theorem InUse.brought (h : InUse home d w) :
    InUse home d { w with files := w.files.set home (.file (.database d true)) } ∧
      (w.files.set home (.file (.database d true))).node? home =
        some (.file (.database d true)) ∧
      Tree.Agree (· ≠ home) w.files (w.files.set home (.file (.database d true))) := by
  obtain ⟨d₀, hf, -⟩ := h.file
  obtain ⟨c, hc⟩ := h.logFile
  obtain ⟨c', hc'⟩ := h.indexFile
  have ha := Tree.agree_set_file hf (.file (.database d true))
  have hself : (w.files.set home (.file (.database d true))).node? home =
      some (.file (.database d true)) := (Tree.node?_set_file hf _ _).trans (if_pos rfl)
  have hne : ∀ a, a ≠ "" → home.beside a ≠ home := fun a => Place.beside_ne_self h.home_ne
  exact ⟨⟨h.name, h.place, h.log, h.steady, h.content, ⟨d, hself, fun _ => rfl⟩,
    (ha _ (hne _ (by decide))).trans h.journal, ⟨c, (ha _ (hne _ (by decide))).trans hc⟩,
    ⟨c', (ha _ (hne _ (by decide))).trans hc'⟩⟩, hself, ha⟩

/-- A database that is closed is at rest, with all that was changed. -/
theorem close_rests (h : InUse home d w) (hfits : fits home journalEnding = true) :
    w.close.Rests home d ∧ w.close.node? home = some (.file (.database d true)) ∧
      Tree.Agree (· ∉ home.family) w.files w.close := by
  obtain ⟨path, hn⟩ := h.name
  have haccess : w.connection.name.access ≠ .read := by rw [hn]; exact nofun
  have hindex : w.connection.name.hasIndexFile = true := by rw [hn]; rfl
  have hclose : w.close = ((finish home).run.run w).2.files := by
    simp only [close, h.place, h.log, if_neg haccess]
  obtain ⟨d₀, hf, hd⟩ := h.file
  obtain ⟨v, hv, hfile, hjournal, hlog, hindex', ha⟩ : ∃ v, (finish home).run.run w = (.ok (), v) ∧
      v.files.node? home = some (.file (.database d true)) ∧
      v.files.node? (home.beside journalEnding) = none ∧
      v.files.node? (home.beside logEnding) = none ∧
      v.files.node? (home.beside indexEnding) = none ∧
      Tree.Agree (· ∉ home.family) w.files v.files := by
    cases hc : w.connection.changed with
    | false =>
      obtain ⟨v, hv, hrest⟩ := run_finish_rest h (by rw [hf, hd hc])
      refine ⟨v, ?_, hrest⟩
      simp only [finish, run_bind, run_get, hc, hindex, Bool.false_and, Bool.false_eq_true,
        if_false, if_true]
      simpa only [run_bind, run_pure] using hv
    | true =>
      obtain ⟨h₁, hf₁, ha₁⟩ := h.brought
      obtain ⟨v, hv, hfile, hjournal, hlog, hindex', ha⟩ := run_finish_rest h₁ hf₁
      refine ⟨v, ?_, hfile, hjournal, hlog, hindex', Tree.Agree.trans ?_ ha⟩
      · simp only [finish, run_bind, run_get, hc, h.steady, hindex, Bool.not_false, Bool.true_and,
          if_true, run_look, hf, h.content]
        simpa only [run_bind, run_pure, write, run_modify] using hv
      · exact ha₁.mono fun q hq he => hq (by simp [Place.family, he])
  rw [hclose, hv]
  exact ⟨⟨.inl ⟨hfile, hfits⟩, hjournal, hlog, hindex'⟩, hfile, ha⟩

end World

end OvertimeNotice
