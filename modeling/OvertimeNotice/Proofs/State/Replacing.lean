import OvertimeNotice.Proofs.State.Adding

/-!
# A file replaced whole or not at all

Anything may stand where the file of a month or its temporary file goes: a directory, a file that is
no text, nothing at all. A mark is recorded or the tree stays as it is. What could go wrong between
the two files does not: a directory in place of the month's file already fails the reading, so a
temporary file that was written can be moved.

* `FlagFiles.write_after_read`: writing a file that was read replaces it or fails without a trace.
* `FlagFiles.upsert_whole`: the three ways a call ends.
-/

namespace OvertimeNotice

namespace FlagFiles

variable {s : FlagFiles} {t : Tree} {m : Month} {old : MonthFile}

/-- A temporary file that was written had nothing in its way. -/
theorem canReplace_of_writeText {text : String} {written : Tree}
    (h : t.writeText (s.temporary m) text = .ok written) : s.CanReplace m t := by
  obtain ⟨hlocate, hnode, -⟩ := Tree.node?_writeText h
  exact ⟨hlocate, hnode⟩

/-- Where the file of a month could be read, or could be read but for what it says, writing it
fails only before anything is written. -/
theorem write_after_read (hread : s.readToAmend m t = .ok old) (file : MonthFile) :
    (∃ f, s.write m file t = (.error f, t)) ∨
      ∃ u, s.write m file t = (.ok (), u) ∧ s.Replaced m file t u := by
  cases hw : t.writeText (s.temporary m) file.toJson.pretty with
  | error f =>
    left
    exact ⟨.file f, by simp only [write, hw]⟩
  | ok written =>
    obtain ⟨u, hu, -, hnodes⟩ := (canReplace_of_writeText hw).replaced hread file
    right
    exact ⟨u, hu, hnodes⟩

/-- **A mark is recorded whole or not at all**, whatever the tree holds. A call that fails changes
nothing; not even a temporary file comes or goes. A call that succeeds found the key in the file of
its month and changed nothing, or it replaced that file by the one with its key and left no
temporary file. -/
theorem upsert_whole (s : FlagFiles) (e : Mark) (t : Tree) :
    -- The file cannot be read, or no temporary file can be written.
    (∃ f, s.upsert e t = (.error f, t)) ∨
    -- The file has the key.
    (∃ file, s.readToAmend e.month t = .ok file ∧
      (file.keysOf e.employee).contains e.marker.key = true ∧ s.upsert e t = (.ok (), t)) ∨
    -- The file gets the key.
    ∃ file u, s.readToAmend e.month t = .ok file ∧
      ¬(file.keysOf e.employee).contains e.marker.key = true ∧
      s.upsert e t = (.ok (), u) ∧ s.Replaced e.month (file.insert e) t u := by
  cases hread : s.readToAmend e.month t with
  | error f =>
    left
    exact ⟨f, by simp only [upsert, hread]⟩
  | ok file =>
    by_cases hk : (file.keysOf e.employee).contains e.marker.key = true
    · right; left
      exact ⟨file, rfl, hk, by simp only [upsert, hread, if_pos hk]⟩
    · have hwrite : s.upsert e t = s.write e.month (file.insert e) t := by
        simp only [upsert, hread, if_neg hk]
      rw [hwrite]
      rcases write_after_read hread (file.insert e) with hw | ⟨u, hw, hu⟩
      · left
        exact hw
      · right; right
        exact ⟨file, u, rfl, hk, hw, hu⟩

end FlagFiles

end OvertimeNotice
