import OvertimeNotice.Proofs.Plan.Addressed
import OvertimeNotice.Proofs.Plan.Digest
import OvertimeNotice.Proofs.Plan.Rows

/-!
# Identities that entries are addressed to

Every identity loses the blanks around it on the way to an entry, but for that of direct notice,
which is the one of the row as it stands there. So the two entries on one employee reach them
together just if the row has their identity without blanks.

* `Text.Neat`: a text without blanks at either end, and not empty.
* `run_identities`: the identities of a report.
* `run_splits_digest`: an employee whose two entries stand under two keys.
-/

namespace OvertimeNotice

namespace Text

/-- The text is not empty, and neither its first nor its last character is blank. -/
structure Neat (s : String) : Prop where
  ne_empty : s ≠ ""
  first : ∀ c, s.toList.head? = some c → isBlank c = false
  last : ∀ c, s.toList.getLast? = some c → isBlank c = false

theorem neat_iff {s : String} : Neat s ↔ s ≠ "" ∧ trim s = s := by
  constructor
  · rintro ⟨hne, hfirst, hlast⟩
    have hleft : dropBlanks s.toList = s.toList := dropBlanks_eq_self_iff.mpr hfirst
    have hright : dropBlanks s.toList.reverse = s.toList.reverse := by
      refine dropBlanks_eq_self_iff.mpr fun c hc => hlast c ?_
      rwa [List.head?_reverse] at hc
    refine ⟨hne, ?_⟩
    rw [trim, trimChars, hleft, hright, List.reverse_reverse, String.ofList_toList]
  · rintro ⟨hne, htrim⟩
    have hchars : trimChars s.toList = s.toList := by
      rw [← String.toList_ofList (l := trimChars s.toList)]
      exact congrArg String.toList htrim
    refine ⟨hne, dropBlanks_eq_self_iff.mp ?_, fun c hc => ?_⟩
    · rw [← hchars, dropBlanks_trimChars]
    · have hright := dropBlanks_reverse_trimChars s.toList
      rw [hchars] at hright
      exact dropBlanks_eq_self_iff.mp hright c (by rwa [List.head?_reverse])

instance (s : String) : Decidable (Neat s) := decidable_of_iff _ neat_iff.symm

theorem neat_trim {s : String} (h : trim s ≠ "") : Neat (trim s) :=
  neat_iff.mpr ⟨h, trim_trim s⟩

end Text

open Text (Neat)

theorem neat_of_identity? {given x : String} (h : identity? given = some x) : Neat x := by
  obtain ⟨rfl, hne⟩ := identity?_eq_some.mp h
  exact Text.neat_trim hne

namespace Config

variable {c : Config} {department employee own x : String} {identity : Option String}
  {mode : RunMode} {severity : Severity}

theorem neat_of_mem_managers (h : x ∈ c.managers department) : Neat x := by
  obtain ⟨_, -, given, -, hx⟩ := mem_managers.mp h
  exact neat_of_identity? hx

theorem employee_recipientsOf
    (h : (c.recipientsOf department employee identity mode severity).employee = some own) :
    ∃ given, identity = some given ∧ identity? given = some own := by
  simp only [recipientsOf] at h
  split at h
  · exact Option.bind_eq_some_iff.mp h
  · cases h

theorem neat_of_mem_recipientsOf
    (h : x ∈ (c.recipientsOf department employee identity mode severity).all) : Neat x := by
  rcases Recipients.mem_all.mp h with h | h
  · exact neat_of_mem_managers h
  · obtain ⟨given, -, hx⟩ := employee_recipientsOf h
    exact neat_of_identity? hx

end Config

theorem Recipients.mem_all_onlyEmployee {identity x : String} :
    x ∈ (onlyEmployee identity).all ↔ x = identity := by
  simp [mem_all, onlyEmployee, eq_comm]

theorem RawRow.identity_of_accept {month : Month} {row : RawRow} {r : OvertimeRecord}
    (h : row.accept month = .ok r) :
    r.identity = row.identity.filter fun s => Text.trim s != "" := by
  obtain ⟨-, -, _, -, rfl⟩ := accept_eq_ok h
  rfl

namespace Planner

variable {c : Config} {r : OvertimeRecord} {s : Snapshot} {e e' : PlanEntry}
  {entries : List PlanEntry} {x own given : String}

theorem Addressed.neat (h : Addressed c r s e) (hkind : e.kind ≠ .selfEscalation)
    (hx : x ∈ e.recipients.all) : Neat x := by
  rw [h.report hkind] at hx
  exact Config.neat_of_mem_recipientsOf hx

/-- An entry that goes to its employee and direct notice to them meet under one key just if the
identity has no blanks around it: no manager has an identity with some. -/
theorem Addressed.together_iff (he : e ∈ entries) (he' : e' ∈ entries) (h : Addressed c r s e)
    (hkind : e.kind ≠ .selfEscalation) (hown : e.recipients.employee = some own)
    (hgiven : r.identity = some given) (hto : e'.recipients = .onlyEmployee given) :
    own = Text.trim given ∧ (Together entries e e' ↔ Neat given) := by
  obtain rfl : Text.trim given = own := by
    rw [h.report hkind] at hown
    obtain ⟨given', hidentity, hx⟩ := Config.employee_recipientsOf hown
    obtain rfl : given = given' := Option.some.inj (hgiven.symm.trans hidentity)
    exact (identity?_eq_some.mp hx).1
  refine ⟨rfl, OvertimeNotice.together_iff.trans ⟨?_, fun hneat => ⟨he, he', given, ?_, ?_⟩⟩⟩
  · rintro ⟨-, -, key, hkey, hkey'⟩
    rw [hto, Recipients.mem_all_onlyEmployee] at hkey'
    exact hkey' ▸ h.neat hkind hkey
  · rw [Recipients.mem_all, hown, (Text.neat_iff.mp hneat).2]
    exact .inr rfl
  · rw [hto]
    exact Recipients.mem_all_onlyEmployee.mpr rfl

variable {σ : Type} {b : Backend σ} {runId : String} {now : Moment} {decision : RunDecision}
  {rows : List RawRow} {l l' : Ledger σ} {rep : Report}

/-- An identity on record is the one of the row that counts, which is more than blanks. -/
theorem row_of_identity {month : Month} (hr : r ∈ (intake month rows).records)
    (hgiven : r.identity = some given) : ∃ before row after, rows = before ++ row :: after ∧
      row.Counts before ∧ row.key = r.employee ∧ row.identity = some given ∧
      Text.trim given ≠ "" := by
  obtain ⟨before, row, after, hrows, htaken⟩ := mem_records_iff.mp hr
  rw [RawRow.identity_of_accept htaken.valid, Option.filter_eq_some_iff] at hgiven
  exact ⟨before, row, after, hrows, (RawRow.counts_iff month).mpr ⟨r, htaken⟩,
    (RawRow.employee_of_accept htaken.valid).symm, hgiven.1, by simpa using hgiven.2⟩

/-- **Where identities keep their blanks.** The identities of an entry have no blanks around them,
unless it is direct notice, which goes to the identity of the employee's row as it stands there. An
employee with another entry that goes to them finds both under one key just if that identity has no
blanks around it. -/
theorem run_identities (h : run b c runId now decision rows l = (.ok rep, l')) :
    ∀ e ∈ rep.entries,
      (e.kind ≠ .selfEscalation → ∀ x ∈ e.recipients.all, Neat x) ∧
      (e.kind = .selfEscalation → ∃ before row after given, rows = before ++ row :: after ∧
        row.Counts before ∧ row.key = e.snapshot.employee ∧ row.identity = some given ∧
        Text.trim given ≠ "" ∧ e.recipients = .onlyEmployee given ∧
        ∀ e' ∈ rep.entries, e'.kind ≠ .selfEscalation →
          e'.snapshot.employee = e.snapshot.employee → ∀ own, e'.recipients.employee = some own →
            own = Text.trim given ∧ (Together rep.entries e' e ↔ Neat given)) := by
  obtain ⟨work, hev, haddressed⟩ := addressed_of_report h
  intro e he
  obtain ⟨w, hw, hwe⟩ := haddressed e he
  refine ⟨fun hkind x hx => hwe.neat hkind hx, fun hkind => ?_⟩
  obtain ⟨given, hgiven, hto⟩ := hwe.notice hkind
  have hr : w.1 ∈ (intake now.toMonth rows).records := hev.records ▸ List.mem_map_of_mem hw
  obtain ⟨before, row, after, hrows, hcounts, hkey, hidentity, hne⟩ := row_of_identity hr hgiven
  refine ⟨before, row, after, given, hrows, hcounts, ?_, hidentity, hne, hto,
    fun e' he' hkind' hsame own hown => ?_⟩
  · rw [hkey, hwe.snapshot, (hev.workOf.subject w hw).1]
  · obtain ⟨w', hw', hwe'⟩ := haddressed e' he'
    -- both entries are about one record, since no employee has two
    have hrecord : w' = w := by
      refine List.inj_on_of_nodup_map hev.workOf.nodup hw' hw ?_
      rw [← hwe'.snapshot, ← hwe.snapshot, hsame]
    subst hrecord
    exact hwe'.together_iff he' he hkind' hown hgiven hto

/-- The employee at the ceiling gets an ordinary entry and direct notice, both under one key. -/
theorem run_identities_memory :
    ∃ rep l' e e', (RunRequest.trial 600 600 .threshold).on Backend.memory (.fresh .empty) =
        (.ok rep, l') ∧ rep.entries = [e, e'] ∧ e.kind = .ordinary ∧ e'.kind = .selfEscalation ∧
      (∀ x ∈ e.recipients.all, Neat x) ∧ Together rep.entries e e' := by
  obtain ⟨rep, l', h, hentries⟩ : ∃ rep l',
      (RunRequest.trial 600 600 .threshold).on Backend.memory (.fresh .empty) = (.ok rep, l') ∧
      rep.entries.map (fun e => (e.kind, e.snapshot.employee, e.recipients.employee)) =
        [(.ordinary, "1001", some "ann@example.com"),
          (.selfEscalation, "1001", some "ann@example.com")] :=
    RunRequest.exists_of_map_on (by decide +kernel)
  have hidentities := run_identities h
  simp only [List.map_eq_cons_iff, List.map_eq_nil_iff, Prod.mk.injEq] at hentries
  obtain ⟨e, _, hlist, ⟨hkind, hemployee, hown⟩, e', _, rfl, ⟨hkind', hemployee', hown'⟩, rfl⟩ :=
    hentries
  have he : e ∈ rep.entries := hlist ▸ List.mem_cons_self
  have he' : e' ∈ rep.entries := hlist ▸ List.mem_cons_of_mem _ List.mem_cons_self
  have hne : e.kind ≠ .selfEscalation := by rw [hkind]; decide
  obtain ⟨_, _, _, given, -, -, -, -, -, hto, hmeet⟩ := (hidentities e' he').2 hkind'
  obtain rfl : given = "ann@example.com" := by
    rw [hto] at hown'
    exact Option.some.inj hown'
  refine ⟨rep, l', e, e', h, hlist, hkind, hkind', (hidentities e he).1 hne, ?_⟩
  exact (hmeet e he hne (hemployee.trans hemployee'.symm) _ hown).2.mpr (by decide +kernel)

/-- The employee at the ceiling, in whose row there are blanks around the identity. -/
private def blanksAround : RunRequest :=
  let q := RunRequest.trial 600 600 .threshold
  { q with rows := q.rows.map fun row => { row with identity := some " ann@example.com " } }

/-- Nobody finds both entries on the employee under one key: the ordinary one goes to the identity
without the blanks, direct notice to the identity with them. -/
theorem run_splits_digest :
    ∃ rep l' e e', blanksAround.on Backend.memory (.fresh .empty) = (.ok rep, l') ∧
      rep.entries = [e, e'] ∧ e.kind = .ordinary ∧ e'.kind = .selfEscalation ∧
      e.snapshot.employee = e'.snapshot.employee ∧
      e.recipients.employee = some "ann@example.com" ∧
      e'.recipients.employee = some " ann@example.com " ∧
      ¬(∀ x ∈ e'.recipients.all, Neat x) ∧ ¬Together rep.entries e e' := by
  obtain ⟨rep, l', h, hentries⟩ : ∃ rep l',
      blanksAround.on Backend.memory (.fresh .empty) = (.ok rep, l') ∧
      rep.entries.map (fun e =>
        (e.kind, e.snapshot.employee, e.recipients.employee, e.recipients.all.toList)) =
        [(.ordinary, "1001", some "ann@example.com",
            ["ann@example.com", "hr@example.com", "lead300@example.com"]),
          (.selfEscalation, "1001", some " ann@example.com ", [" ann@example.com "])] :=
    RunRequest.exists_of_map_on (by decide +kernel)
  simp only [List.map_eq_cons_iff, List.map_eq_nil_iff, Prod.mk.injEq] at hentries
  obtain ⟨e, _, hlist, ⟨hkind, hemployee, hown, hall⟩, e', _, rfl,
    ⟨hkind', hemployee', hown', hall'⟩, rfl⟩ := hentries
  refine ⟨rep, l', e, e', h, hlist, hkind, hkind', hemployee.trans hemployee'.symm, hown, hown',
    fun hneat => ?_, fun htogether => ?_⟩
  · have hblank : ¬Neat " ann@example.com " := by decide +kernel
    exact hblank (hneat _ (Recipients.mem_all.mpr (.inr hown')))
  · obtain ⟨-, -, key, hkey, hkey'⟩ := OvertimeNotice.together_iff.mp htogether
    rw [TextSet.mem_def, hall] at hkey
    rw [TextSet.mem_def, hall', List.mem_singleton] at hkey'
    subst hkey'
    exact absurd hkey (by decide +kernel)

end Planner

end OvertimeNotice
