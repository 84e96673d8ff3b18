import OvertimeNotice.Proofs.Plan.Readable
import OvertimeNotice.Runner

/-!
# The lines of a plan

A plan is written one entry a line. Whatever the names and identities in it say, a line breaks
nowhere but at its end, and reads back as its entry, but for the percentage. Where standard output
refuses a line, the lines before it have got out, and at most a piece of this one.

* `splitOn_lines`: lines that are written one after the other are told apart again;
  `Refusal.splitOn_text`: and so are those that get out whole before a stream refuses.
* `PlanEntry.Legible`, `Planner.legible_of_report`: the entries whose lines read back.
* `PlanEntry.OnLine`: what a line says; `PlanEntry.exists_onLine`, `PlanEntry.countP_onLine`: the
  lines of entries say what the entries say.
* `Runner.concludes_of_report`: whatever report an invocation comes to is that of a run.
* `Invocation.printed`, `Invocation.unprinted`: the entries whose lines got out, and the others.
* `Invocation.emitted_lines`: the lines of the plan of a run.
-/

namespace OvertimeNotice

/-- Where no line has a break of its own, breaking their text gives the lines, and what comes after
the last break. -/
theorem splitOn_lines {lines : List String} {rest : List Char}
    (h : ∀ line ∈ lines, '\n' ∉ line.toList) (hrest : '\n' ∉ rest) :
    ((String.join (lines.map (· ++ "\n"))).toList ++ rest).splitOn '\n' =
      lines.map String.toList ++ [rest] := by
  rw [String.toList_join]
  induction lines with
  | nil => exact List.splitOn_eq_singleton hrest
  | cons line lines ih =>
    obtain ⟨hline, hlines⟩ := List.forall_mem_cons.mp h
    have hbreak : (line ++ "\n").toList = line.toList ++ ['\n'] := String.toList_append
    rw [List.map_cons, List.flatMap_cons, hbreak, List.append_assoc, List.append_assoc,
      List.singleton_append, List.splitOn_append_cons_self_of_not_mem hline, ih hlines,
      List.map_cons, List.cons_append]

/-- What gets out before a stream refuses is the lines that get out whole, and a piece of a line. -/
theorem Refusal.splitOn_text {r : Refusal} {lines : List String} (hr : r.lines < lines.length)
    (h : ∀ line ∈ lines, '\n' ∉ line.toList) :
    ∃ rest, (r.text lines).toList.splitOn '\n' =
      (lines.take (r.whole lines)).map String.toList ++ [rest] := by
  have hline : (r.line lines).toList = lines[r.lines].toList ++ ['\n'] := by
    rw [line, List.getD_eq_getElem?_getD, List.getElem?_eq_getElem hr, Option.getD_some]
    exact String.toList_append
  have hlength : (r.line lines).length = lines[r.lines].toList.length + 1 := by
    rw [← String.length_toList, hline, List.length_append, List.length_singleton]
  have htaken : ∀ n, ∀ line ∈ lines.take n, '\n' ∉ line.toList := fun n line hmem =>
    h line (List.mem_of_mem_take hmem)
  rw [text, whole, String.toList_append, String.toList_ofList, hline, hlength]
  split
  · rename_i hwhole
    refine ⟨[], ?_⟩
    have htext : (lines[r.lines].toList ++ ['\n']).take r.piece =
        (lines[r.lines] ++ "\n").toList := by
      rw [List.take_of_length_le (by simpa using hwhole), String.toList_append]
      rfl
    have hmore : lines.take (r.lines + 1) = lines.take r.lines ++ [lines[r.lines]] :=
      List.take_succ_eq_append_getElem hr
    have hsplit := splitOn_lines (htaken (r.lines + 1)) (List.not_mem_nil (a := '\n'))
    rw [List.append_nil] at hsplit
    rw [htext, ← String.toList_append, ← hsplit, hmore, List.map_append, List.map_singleton,
      String.join_append, String.join_cons, String.join_nil, String.append_empty]
  · rename_i hpart
    refine ⟨lines[r.lines].toList.take r.piece, ?_⟩
    have htext : (lines[r.lines].toList ++ ['\n']).take r.piece =
        lines[r.lines].toList.take r.piece := List.take_append_of_le_length (by omega)
    rw [htext]
    exact splitOn_lines (htaken r.lines) fun hmem =>
      h _ (List.getElem_mem hr) (List.mem_of_mem_take hmem)

/-- A value that has a text is written on one line. -/
theorem Json.Ordinary.not_mem_compact {j : Json} (h : j.Ordinary) : '\n' ∉ j.compact.toList := by
  rw [Json.compact, String.toList_ofList]
  exact h.isLine.not_mem_newline

namespace PlanEntry

/-- The entry has a line that reads back. -/
def Legible (e : PlanEntry) : Prop := e.snapshot.IsPlain ∧ e.snapshot.percent.Moderate

theorem Legible.not_mem_compact {e : PlanEntry} (h : e.Legible) :
    '\n' ∉ e.toJson.compact.toList :=
  (ordinary_toJson h.1 h.2).not_mem_compact

/-- The entry that a line says. -/
def ofLine? (line : String) : Option PlanEntry := (Json.parse? line).bind (ofJson? (.text 0))

/-- The line says an entry of this kind. -/
def OnLine (p : PlanEntry → Prop) (line : String) : Prop := ∃ e ∈ ofLine? line, p e

instance (p : PlanEntry → Prop) [DecidablePred p] : DecidablePred (OnLine p) := fun line =>
  inferInstanceAs (Decidable (∃ e ∈ ofLine? line, p e))

theorem Legible.ofLine? {e : PlanEntry} (h : e.Legible) :
    ofLine? e.toJson.compact = some e.reread :=
  ofJson?_compact h.1 h.2 (.text 0)

section

variable {es : List PlanEntry} {p : PlanEntry → Prop} (h : ∀ e ∈ es, e.Legible)

include h

theorem map_ofLine? :
    (es.map fun e => e.toJson.compact).map ofLine? = es.map fun e => some e.reread := by
  rw [List.map_map]
  refine List.map_congr_left fun e he => ?_
  rw [Function.comp_apply, (h e he).ofLine?]

variable (hp : ∀ e, p e.reread ↔ p e)

include hp

theorem onLine_compact {e : PlanEntry} (he : e ∈ es) : OnLine p e.toJson.compact ↔ p e := by
  rw [OnLine, (h e he).ofLine?, ← hp e]
  simp

theorem exists_onLine :
    (∃ line ∈ es.map fun e => e.toJson.compact, OnLine p line) ↔ ∃ e ∈ es, p e := by
  constructor
  · rintro ⟨line, hline, hp'⟩
    obtain ⟨e, he, rfl⟩ := List.mem_map.mp hline
    exact ⟨e, he, (onLine_compact h hp he).mp hp'⟩
  · rintro ⟨e, he, hp'⟩
    exact ⟨_, List.mem_map_of_mem he, (onLine_compact h hp he).mpr hp'⟩

theorem countP_onLine [DecidablePred p] :
    (es.map fun e => e.toJson.compact).countP (OnLine p) = es.countP p := by
  rw [List.countP_map]
  refine List.countP_congr fun e he => ?_
  simp only [Function.comp_apply, decide_eq_true_eq]
  exact onLine_compact h hp he

end

end PlanEntry

/-- A report of a year that is not negative has such entries. -/
theorem Planner.legible_of_report {σ : Type} {b : Backend σ} {c : Config} {runId : String}
    {now : Moment} {decision : RunDecision} {rows : List RawRow} {l l' : Ledger σ} {rep : Report}
    (hy : 0 ≤ now.date.year) (h : run b c runId now decision rows l = (.ok rep, l')) :
    ∀ e ∈ rep.entries, e.Legible := by
  obtain ⟨hfigures, hpercents⟩ := figures_of_report hy h
  intro e he
  have hmem : e.snapshot ∈ rep.figures := List.mem_append_left _ (List.mem_map_of_mem he)
  exact ⟨hfigures _ hmem, hpercents _ (List.mem_append_left _ (List.mem_map_of_mem hmem))⟩

/-! ## Reports -/

namespace Runner

variable {o : Console} {b : Backend World} {c : Config} {s : Settings} {now : Moment}
  {runId : String} {decision : RunDecision} {rows : List RawRow} {rep : Report}

theorem report?_ofFailure (f : Failure) : (Invocation.ofFailure f).report? = none := by
  cases f <;> rfl

theorem report?_ofFetchFailure (month : Month) (f : Failure) :
    (Invocation.ofFetchFailure month f).report? = none := by
  cases f <;> rfl

theorem report?_conclude (o : Console) (rep : Report) (cacheDir recordedAt : String) (w : World) :
    (conclude o rep cacheDir recordedAt w).1.report? = some rep := by
  unfold conclude
  split
  · rfl
  · split
    · rfl
    · dsimp only
      split <;> rfl

theorem eq_some_of_refusalOf {stream : Option Refusal} {lines : List String} {r : Refusal}
    (h : refusalOf stream lines = some r) : stream = some r :=
  (Option.filter_eq_some_iff.mp h).1

theorem refusal?_conclude {cacheDir recordedAt : String} {w : World} {r : Refusal}
    (h : (conclude o rep cacheDir recordedAt w).1.refusal? = some r) :
    o.stdout = some r ∨ o.stderr = some r := by
  unfold conclude at h
  split at h
  · rename_i hstdout
    exact .inl (Option.some.inj h ▸ eq_some_of_refusalOf hstdout)
  · split at h
    · rename_i hstderr
      exact .inr (Option.some.inj h ▸ eq_some_of_refusalOf hstderr)
    · dsimp only at h
      split at h
      · rename_i hstderr
        exact .inr (Option.some.inj h ▸ eq_some_of_refusalOf hstderr)
      · exact nomatch h

/-- The invocation ended with what follows on the report of a run at this moment. -/
def Concludes (o : Console) (runId : String) (now : Moment) (decision : RunDecision) (rep : Report)
    (i : Invocation) : Prop :=
  (∃ (b : Backend World) (c : Config) (rows : List RawRow) (l l' : Ledger World),
    Planner.run b c runId now decision rows l = (.ok rep, l')) ∧
    ∃ cacheDir recordedAt w, i = (conclude o rep cacheDir recordedAt w).1

theorem concludes_of_plan {l : Ledger World}
    (h : (plan o b c s now runId decision rows l).1.report? = some rep) :
    Concludes o runId now decision rep (plan o b c s now runId decision rows l).1 := by
  revert h
  unfold plan
  dsimp only
  split
  · exact fun h => nomatch (report?_ofFailure _).symm.trans h
  · split
    · exact fun h => nomatch (report?_ofFailure _).symm.trans h
    · rename_i hrun
      rw [report?_conclude]
      rintro ⟨⟩
      exact ⟨⟨_, _, _, _, _, hrun⟩, _, _, _, rfl⟩

theorem concludes_of_pass {w : World}
    (h : (pass o b c s now runId decision w).1.report? = some rep) :
    Concludes o runId now decision rep (pass o b c s now runId decision w).1 := by
  revert h
  unfold pass
  dsimp only
  split
  · exact fun h => nomatch (report?_ofFetchFailure _ _).symm.trans h
  · exact concludes_of_plan

theorem concludes_of_withBackend {w : World}
    (h : (withBackend o c s now runId decision w).1.report? = some rep) :
    Concludes o runId now decision rep (withBackend o c s now runId decision w).1 := by
  revert h
  unfold withBackend
  split
  · exact concludes_of_pass
  · split
    · dsimp only
      split
      · exact fun h => nomatch h
      · exact concludes_of_pass
    · exact fun h => nomatch h

theorem concludes_of_withDatabase {t : Tree}
    (h : (withDatabase o c s now runId decision t).1.report? = some rep) :
    Concludes o runId now decision rep (withDatabase o c s now runId decision t).1 := by
  revert h
  unfold withDatabase
  split
  · exact fun h => nomatch h
  · split
    · exact fun h => nomatch (report?_ofFailure _).symm.trans h
    · exact concludes_of_withBackend

/-- An invocation that comes to a report ends with what follows on it. -/
theorem concludes_of_report {t : Tree} (h : (invokeAt o s now runId t).1.report? = some rep) :
    ∃ decision, Concludes o runId now decision rep (invokeAt o s now runId t).1 := by
  revert h
  unfold invokeAt
  split
  · exact fun h => nomatch h
  · split
    · exact fun h => nomatch h
    · split
      · exact fun h => nomatch h
      · exact fun h => ⟨_, concludes_of_withDatabase h⟩

end Runner

namespace Invocation

theorem report?_of_refusal? {i : Invocation} {r : Refusal} (h : i.refusal? = some r) :
    ∃ rep, i.report? = some rep := by
  cases i with
  | cutOff | silenced => exact ⟨_, rfl⟩
  | _ => exact nomatch h

theorem eq_finished {i : Invocation} {rep : Report} (h : i.exitCode = 0)
    (hrep : i.report? = some rep) : ∃ failures, i = finished rep failures := by
  cases i with
  | finished report failures => exact ⟨failures, by rw [Option.some.inj hrep]⟩
  | skipped => exact nomatch hrep
  | _ => exact nomatch h

/-! ## What gets out -/

/-- The entries of the plan. -/
def entries (i : Invocation) : List PlanEntry := (i.report?.map (·.entries)).getD []

/-- The entries whose lines got out. -/
def printed : Invocation → List PlanEntry
  | cutOff report r => report.entries.take (r.whole (planLines report))
  | i => i.entries

/-- The entries whose lines did not, because standard output refused one. -/
def unprinted : Invocation → List PlanEntry
  | cutOff report r => report.entries.drop (r.whole (planLines report))
  | _ => []

theorem printed_append_unprinted (i : Invocation) : i.printed ++ i.unprinted = i.entries := by
  cases i with
  | cutOff report r => exact List.take_append_drop ..
  | _ => exact List.append_nil _

theorem printed_sublist (i : Invocation) : i.printed.Sublist i.entries := by
  rw [← i.printed_append_unprinted]
  exact List.sublist_append_left ..

theorem whole_of_piece_eq_zero {r : Refusal} (h : r.piece = 0) (lines : List String) :
    r.whole lines = r.lines := by
  rw [Refusal.whole, if_neg]
  rw [h, Refusal.line, String.length_append]
  exact Nat.not_succ_le_zero _

theorem stdout_eq (i : Invocation) : i.stdout = i.printed.map fun e => e.toJson.compact := by
  cases i with
  | cutOff report r => exact List.map_take.symm
  | _ => rfl

/-- What the lines that got out say is what their entries say. -/
theorem map_stdout {α : Type} (f : PlanEntry → α) {i : Invocation}
    (h : ∀ e ∈ i.entries, e.Legible) :
    (i.stdout.map fun line => (PlanEntry.ofLine? line).map f) =
      i.printed.map fun e => some (f e.reread) := by
  rw [stdout_eq, List.map_map]
  refine List.map_congr_left fun e he => ?_
  rw [Function.comp_apply, (h e (i.printed_sublist.subset he)).ofLine?, Option.map_some]

variable {σ : Type} {b : Backend σ} {c : Config} {runId : String} {now : Moment}
  {decision : RunDecision} {rows : List RawRow} {l l' : Ledger σ} {rep : Report}

/-! ## The lines -/

/-- **The plan of a run is written an entry a line**, if the year is not negative. Its text falls
into lines at its line breaks, the last of which ends it, and there is one line for each entry, in
order, which reads back as the entry with its percentage read again. -/
theorem emitted_lines (hy : 0 ≤ now.date.year)
    (h : Planner.run b c runId now decision rows l = (.ok rep, l')) (failures : List String) :
    let i := finished rep failures
    i.emitted.toList.splitOn '\n' = i.stdout.map String.toList ++ [[]] ∧
      List.Forall₂ (fun line e => (Json.parse? line).bind (PlanEntry.ofJson? (.text 0)) =
        some { e with snapshot := { e.snapshot with percent := e.snapshot.percent.reread } })
        i.stdout rep.entries := by
  intro i
  have hentry := Planner.legible_of_report hy h
  constructor
  · have hbreaks : ∀ line ∈ planLines rep, '\n' ∉ line.toList := by
      intro line hline
      obtain ⟨e, he, rfl⟩ := List.mem_map.mp hline
      exact (hentry e he).not_mem_compact
    have hsplit := splitOn_lines hbreaks (List.not_mem_nil (a := '\n'))
    rw [List.append_nil] at hsplit
    exact hsplit
  · show List.Forall₂ _ (rep.entries.map fun e => e.toJson.compact) rep.entries
    rw [List.forall₂_map_left_iff, List.forall₂_same]
    exact fun e he => (hentry e he).ofLine?

/-- A run about an employee with line breaks, quotes and a control character in every text. -/
private def oddRequest : RunRequest :=
  { RunRequest.trial 600 570 .threshold with
    rows := [{ employee := "10\n01", name := "An\"n\r\n\x01", department := "3\n00"
               identity := some "ann\n@example.com", minutes := some 570
               previousMinutes := none }] }

theorem emitted_lines_sample :
    ∃ rep l', oddRequest.on Backend.memory (.fresh .empty) = (.ok rep, l') ∧
      rep.entries.map (·.snapshot.employee) = ["10\n01", "10\n01"] ∧
      let i := finished rep []
      i.emitted.toList.splitOn '\n' = i.stdout.map String.toList ++ [[]] ∧
        i.stdout.length = 2 := by
  have hrun : (oddRequest.on Backend.memory (.fresh .empty)).1.map
      (fun rep => rep.entries.map (·.snapshot.employee)) = .ok ["10\n01", "10\n01"] := by
    decide +kernel
  obtain ⟨rep, l', h, hentries⟩ := RunRequest.exists_of_map_on hrun
  obtain ⟨hsplit, hread⟩ := emitted_lines (by decide) h []
  refine ⟨rep, l', h, hentries, hsplit, ?_⟩
  rw [hread.length_eq, ← List.length_map (·.snapshot.employee), hentries]
  rfl

end Invocation

end OvertimeNotice
