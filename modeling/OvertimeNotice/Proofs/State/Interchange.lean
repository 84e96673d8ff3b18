import OvertimeNotice.Proofs.State.DatabaseSet
import OvertimeNotice.Proofs.State.FlagSet
import OvertimeNotice.Proofs.State.Opening

/-!
# The two backends answer alike

A database with no marks and an empty directory of flag files both begin as the empty set of marks.
From there on they answer every call as that set does, so no caller can tell which of them it has.

* `World.exists_serving`, `World.exists_new`: how a database without marks comes about.
* `World.answers_eq_flagFiles`: the answers are the same.
-/

namespace OvertimeNotice

namespace World

variable {w : World} {t : Tree} {tables : Tables} {home : Place} {text : String}

/-- A new database takes calls once its tables are made. -/
theorem exists_serving (hp : NamesFile text) (hr : t.Rests home .blank) (h : Reaches t text home)
    (hfits : fits home journalEnding = true) :
    ∃ w w', connect? t text = .ok w ∧ call migrate w = (.ok (), w') ∧
      Serving (.ready .empty) w' := by
  obtain ⟨w, w', tables, hw, hw', hd, huse, -⟩ := connect_of_reaches hp hr h hfits
  rw [Database.migrate, Database.ready.injEq] at hd
  exact ⟨w, w', hw, hw', hd ▸ huse.serving⟩

/-- A new database in an empty directory. -/
theorem exists_new : ∃ w w', connect? ⟨[]⟩ "overtime.db" = .ok w ∧ call migrate w = (.ok (), w') ∧
    Serving (.ready .empty) w' := by
  have hnamed : NamesFile "overtime.db" := ⟨by decide +kernel, by decide⟩
  have hrests : Tree.Rests ⟨[]⟩ ["overtime.db"] .blank := ⟨.inr ⟨rfl, .inl rfl⟩, rfl, rfl, rfl⟩
  have hreaches : Reaches ⟨[]⟩ "overtime.db" ["overtime.db"] :=
    ⟨by decide +kernel, by decide +kernel⟩
  exact exists_serving hnamed hrests hreaches (by decide)

/-- **The backends are interchangeable.** Whatever is asked of a database without marks and of a
store in an empty directory, their answers are the same, and are those of a set of marks: no call
fails, a month lists its marks in order and each once, and a purge counts the marks that go. -/
theorem answers_eq_flagFiles {s : FlagFiles} (hw : Serving (.ready tables) w)
    (hno : tables.marks = []) (ht : t.list (Path.ofText s.dir) = .ok []) (hf : s.Fits)
    {calls : List BackendCall} (hc : ∀ c ∈ calls, c.IsCommon) :
    (backend.performAll calls w).1 = ((Backend.flagFiles s).performAll calls t).1 ∧
      Told ∅ (backend.performAll calls w).1 := by
  have htold : Told ∅ (backend.performAll calls w).1 :=
    keeps_backend.told ⟨tables, hw, Tables.holds_empty hno⟩ hc
  have htold' : Told ∅ ((Backend.flagFiles s).performAll calls t).1 :=
    s.keeps_flagFiles.told (FlagFiles.holds_of_empty ht hf) hc
  have hcalls : (backend.performAll calls w).1.map BackendEvent.call =
      ((Backend.flagFiles s).performAll calls t).1.map BackendEvent.call := by
    rw [Backend.calls_performAll, Backend.calls_performAll]
  exact ⟨htold.unique htold' hcalls, htold⟩

private def october : Month := ⟨2026, 10, by decide, by decide⟩

private def november : Month := ⟨2026, 11, by decide, by decide⟩

/-- Two months, with marks of one employee who has no name. -/
private def sampleCalls : List BackendCall :=
  [.upsert ⟨"7", october, .level .p90⟩, .upsert ⟨"", october, .selfEscalation⟩,
    .upsert ⟨"7", november, .level .p60⟩, .upsert ⟨"7", october, .level .p90⟩, .load october,
    .purge november, .load october, .load november]

/-- A working directory with an empty directory for the flag files. -/
private def emptyFlags : Tree := ⟨[("flags", .directory [])]⟩

theorem answers_eq_flagFiles_sample : ∃ w w', connect? emptyFlags "overtime.db" = .ok w ∧
    call migrate w = (.ok (), w') ∧
      (backend.performAll sampleCalls w').1 =
        ((Backend.flagFiles ⟨"flags"⟩).performAll sampleCalls emptyFlags).1 ∧
      Told ∅ (backend.performAll sampleCalls w').1 := by
  have hnamed : NamesFile "overtime.db" := ⟨by decide +kernel, by decide⟩
  have hrests : emptyFlags.Rests ["overtime.db"] .blank := ⟨.inr ⟨rfl, .inl rfl⟩, rfl, rfl, rfl⟩
  have hreaches : Reaches emptyFlags "overtime.db" ["overtime.db"] :=
    ⟨by decide +kernel, by decide +kernel⟩
  obtain ⟨w, w', hw, hw', hserving⟩ := exists_serving hnamed hrests hreaches (by decide)
  exact ⟨w, w', hw, hw', answers_eq_flagFiles hserving rfl (by decide +kernel)
    (FlagFiles.fits_of_size_le (by decide)) (by decide)⟩

end World

end OvertimeNotice
