import OvertimeNotice.Proofs.State.FlagSet

/-!
# Marks over a file that cannot be read

The file of a month may hold anything. A mark of that month replaces a text that is no list of
marks, so the month reads again afterwards. It does not replace bytes that are no text: then no mark
of the month is ever recorded.

* `FlagFiles.readToAmend_of_text`, `FlagFiles.upsert_of_not_text`: what a mark finds there.
* `FlagFiles.upsert_heals`: what a mark does about it.
* `FlagFiles.upsert_not_text`: a byte that is no text and a mark that is not recorded.
-/

namespace OvertimeNotice

namespace FlagFiles

variable {s : FlagFiles} {t : Tree} {m : Month} {e : Mark} {c : Content}

theorem readText_of_file (hs : s.IsSetUp t) (hf : s.Fits) (hm : m.IsCommon)
    (hfile : t.node? (fileName m :: s.place) = some (.file c)) :
    t.readText (s.path m) = (c.text?.map Except.ok).getD (.error .notText) := by
  have hl := locate_path hs hf hm
  rw [← place_path] at hl hfile
  exact Tree.readText_of_file hl hfile

/-- Whatever a text says, there is something to add a mark to. -/
theorem readToAmend_of_text (hs : s.IsSetUp t) (hf : s.Fits) (hm : m.IsCommon)
    (hfile : t.node? (fileName m :: s.place) = some (.file c)) {text : String}
    (htext : c.text? = some text) : ∃ file, s.readToAmend m t = .ok file := by
  have hread : t.readText (s.path m) = .ok text := by
    rw [readText_of_file hs hf hm hfile, htext]
    rfl
  simp only [readToAmend, read, hread]
  cases (Json.parse? text).bind MonthFile.ofJson? with
  | none => exact ⟨.empty, rfl⟩
  | some file => exact ⟨file, rfl⟩

/-- Bytes that are no text are neither read nor replaced. -/
theorem upsert_of_not_text (hs : s.IsSetUp t) (hf : s.Fits) (he : e.month.IsCommon)
    (hfile : t.node? (fileName e.month :: s.place) = some (.file c)) (htext : c.text? = none) :
    s.upsert e t = (.error (.file .notText), t) ∧
      s.load e.month t = .error (.file .notText) := by
  have hread : t.readText (s.path e.month) = .error .notText := by
    rw [readText_of_file hs hf he hfile, htext]
    rfl
  have hread : s.read e.month t = .error (.file .notText) := by simp only [read, hread]
  exact ⟨by simp only [upsert, readToAmend, hread], by rw [load, hread]; rfl⟩

/-- **What a mark does about the file of its month**, if nothing stands in place of the temporary
file. Where the file is a text, the mark is recorded beside what could be read of it, and the month
reads again. Where it is none, the mark fails, and the file stays and cannot be read. -/
theorem upsert_heals (hs : s.IsSetUp t) (hf : s.Fits) (he : e.IsCommon)
    (hfile : t.node? (fileName e.month :: s.place) = some (.file c))
    (htemporary : t.node? ((fileName e.month ++ ".tmp") :: s.place) = none) :
    (∀ text, c.text? = some text → ∃ u es, s.upsert e t = (.ok (), u) ∧
      s.load e.month u = .ok es ∧ ∀ x, x ∈ es ↔ x = e ∨ x ∈ readMarks (s.load e.month t)) ∧
    (c.text? = none → s.upsert e t = (.error (.file .notText), t) ∧
      s.load e.month t = .error (.file .notText)) := by
  constructor
  · intro text htext
    obtain ⟨file, hamend⟩ := readToAmend_of_text hs hf he.1 hfile htext
    obtain ⟨u, hu⟩ : ∃ u, s.upsert e t = (.ok (), u) := by
      simp only [upsert, hamend]
      split
      · exact ⟨t, rfl⟩
      · obtain ⟨u, hu, -⟩ := write_ok hs hf he.1 (file.insert e) (by rw [hfile]; rintro ⟨⟩)
          (by rw [htemporary]; rintro ⟨⟩)
        exact ⟨u, hu⟩
    obtain ⟨es, hes, hmem⟩ := load_upsert_ok hs he.1 he.2 (congrArg Prod.fst hu)
    rw [hu] at hes
    exact ⟨u, es, hu, hes, hmem⟩
  · exact upsert_of_not_text hs hf he.1 hfile

private def flags : FlagFiles := ⟨"flags"⟩

private def markedMonth : Month := (Month.of? 2026 10).getD default

private def newMark : Mark := ⟨"1001", markedMonth, .level .p90⟩

/-- A directory in which the file of a month has the given content. -/
private def flagsWith (c : Content) : Tree :=
  ⟨[("flags", .directory [(fileName markedMonth, .file c)])]⟩

theorem upsert_heals_sample : ∃ u es, flags.upsert newMark (flagsWith (.ofText "\x7b not json")) =
    (.ok (), u) ∧ flags.load markedMonth u = .ok es ∧ newMark ∈ es := by
  have hs : (flagsWith (.ofText "\x7b not json")).isDirectory (Path.ofText "flags") = true := by
    decide +kernel
  have hmark : newMark.IsCommon := by decide
  obtain ⟨u, es, hu, hes, hmem⟩ :=
    (upsert_heals (s := flags) (c := .ofText "\x7b not json") hs (fits_of_size_le (by decide))
      hmark (by decide +kernel) (by decide +kernel)).1 _ (Content.text?_ofText _)
  exact ⟨u, es, hu, hes, (hmem _).mpr (.inl rfl)⟩

/-- A file of one byte that is no text. -/
private def torn : Content := .bytes ⟨#[0xff]⟩

/-- Over a byte that is no text, a mark is not recorded. -/
theorem upsert_not_text :
    flags.IsSetUp (flagsWith torn) ∧ flags.Fits ∧ newMark.IsCommon ∧
      (flagsWith torn).node? (fileName markedMonth :: flags.place) = some (.file torn) ∧
      (flagsWith torn).node? ((fileName markedMonth ++ ".tmp") :: flags.place) = none ∧
      flags.upsert newMark (flagsWith torn) = (.error (.file .notText), flagsWith torn) ∧
      flags.load markedMonth (flagsWith torn) = .error (.file .notText) := by
  have hs : (flagsWith torn).isDirectory (Path.ofText "flags") = true := by decide +kernel
  have hf : flags.Fits := fits_of_size_le (by decide)
  have hmark : newMark.IsCommon := by decide
  have hfile : (flagsWith torn).node? (fileName markedMonth :: flags.place) =
      some (.file torn) := by decide +kernel
  exact ⟨hs, hf, hmark, hfile, by decide +kernel,
    upsert_of_not_text hs hf hmark.1 hfile (by decide +kernel)⟩

end FlagFiles

end OvertimeNotice
