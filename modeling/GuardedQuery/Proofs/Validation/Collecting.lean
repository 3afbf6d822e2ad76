import GuardedQuery.Proofs.Validation.Independence

/-! # What a validation collects

A check on fields either ends a validation or leaves no trace in it.  So whatever validation
with room for all findings comes to its end has collected what its rules report alone.

- `Validator.unguarded`: the validator without the check on fields.
- `Validator.run_unguarded`: the check leaves no trace.
- `Validator.filter_reporter_perm`, `Validator.filter_kind_perm`: the findings of a rule's kinds
  are those that the rule reports.
-/

namespace GuardedQuery

/-- Of findings of one kind those of a kind are all or none. -/
theorem Finding.filter_kind {found : List Finding} {own : FindingKind}
    (h : ∀ finding ∈ found, finding.kind = own) (kind : FindingKind) :
    found.filter (·.kind = kind) = if kind = own then found else [] := by
  split
  next heq =>
    rw [List.filter_eq_self]
    intro finding hfinding
    simp [h finding hfinding, heq]
  next hne =>
    rw [List.filter_eq_nil_iff]
    intro finding hfinding
    simp [h finding hfinding, Ne.symm hne]

namespace Validator

def unguarded (validator : Validator) : Validator :=
  { validator with guard := none }

/-- A visit that is let through is the same without the check. -/
theorem visit_unguarded {validator next : Validator} {visit : Visit}
    (h : validator.visit visit = (next, none)) :
    validator.unguarded.visit visit = (next.unguarded, none) := by
  have hplain (h : (validator.visitRules visit, (none : Option Fault)) = (next, none)) :
      validator.unguarded.visit visit = (next.unguarded, none) := by
    cases h
    cases visit <;> rfl
  cases visit with
  | field f =>
    cases hguard : validator.guard with
    | none =>
      simp only [Validator.visit, hguard] at h
      exact hplain h
    | some guard =>
      simp only [Validator.visit, hguard] at h
      rcases hcheck : guard.check f with ⟨counted, _ | fault⟩
      · rw [hcheck] at h
        cases h
        rfl
      · rw [hcheck] at h
        cases h
  | _ => exact hplain h

/-- A walk that comes to its end is the same without the check. -/
theorem traverse_unguarded_of_passed {validator last : Validator} {visits : List Visit}
    (h : traverse visit validator visits = (last, none)) :
    traverse visit validator.unguarded visits = (last.unguarded, none) := by
  induction visits generalizing validator with
  | nil =>
    cases h
    rfl
  | cons next rest ih =>
    rw [traverse] at h ⊢
    rcases hvisit : validator.visit next with ⟨between, _ | fault⟩
    · rw [hvisit] at h
      rw [visit_unguarded hvisit]
      exact ih h
    · rw [hvisit] at h
      cases h

theorem run_unguarded {validator : Validator} {document : Document} {findings : Findings}
    (h : validator.run document = .ok findings) :
    validator.unguarded.run document = .ok findings := by
  rw [run] at h ⊢
  rcases hwalk : traverse visit validator document.executable.visits with ⟨last, _ | fault⟩
  · rw [hwalk] at h
    rw [traverse_unguarded_of_passed hwalk]
    exact h
  · rw [hwalk] at h
    cases h

variable {limits : Limits} {names : List RuleName} {capacity : Nat} {document : Document}
  {findings : Findings}

/-- With room for all findings, a run that comes to its end gives a stable sort of what the
rules report alone. -/
theorem isStableSort_of_run (hrun : (ofRules limits names capacity).run document = .ok findings)
    (hnodup : names.Nodup) (hcapacity : (names.flatMap document.report).length ≤ capacity) :
    Finding.IsStableSort findings.toList (names.flatMap document.report) := by
  have hoff : Limits.trusted.nodeCeiling? = none := rfl
  obtain ⟨collected, hcollected, -, hsorted⟩ := run_ofRules hoff hnodup hcapacity
  have hsame : (ofRules .trusted names capacity).run document = .ok findings :=
    run_unguarded hrun
  rw [hcollected] at hsame
  cases hsame
  exact hsorted

/-- The findings of a rule's kinds are those that it reports alone. -/
theorem filter_reporter_perm (hrun : (ofRules limits names capacity).run document = .ok findings)
    (hnodup : names.Nodup) (hcapacity : (names.flatMap document.report).length ≤ capacity)
    {name : RuleName} (hname : name ∈ names) :
    (findings.toList.filter (·.kind.reporter? = some name)).Perm (document.report name) := by
  have hperm :=
    (isStableSort_of_run hrun hnodup hcapacity).perm.filter (·.kind.reporter? = some name)
  have hone : names.filter (fun other => some name = some other) = [name] := by
    have hmem : name ∈ names.filter fun other => some name = some other := by simpa using hname
    rcases RuleName.filter_eq_nil_or_singleton hnodup (some name) with hnone | ⟨other, hother⟩
    · rw [hnone] at hmem
      cases hmem
    · rw [hother, List.mem_singleton] at hmem
      rw [hother, hmem]
  have hall : (document.report name).filter (·.kind.reporter? = some name) =
      document.report name := by
    rw [List.filter_eq_self]
    intro finding hfinding
    exact decide_eq_true (reports_report document name finding hfinding)
  rw [RuleName.filter_flatMap (reports_report document) fun _ h => of_decide_eq_true h, hone,
    List.flatMap_singleton, hall] at hperm
  exact hperm

/-- The findings of a kind are those that the rule for the kind reports alone. -/
theorem filter_kind_perm (hrun : (ofRules limits names capacity).run document = .ok findings)
    (hnodup : names.Nodup) (hcapacity : (names.flatMap document.report).length ≤ capacity)
    {name : RuleName} {kind : FindingKind} (hname : name ∈ names)
    (hkind : kind.reporter? = some name) :
    (findings.toList.filter (·.kind = kind)).Perm
      ((document.report name).filter (·.kind = kind)) := by
  have hperm := (filter_reporter_perm hrun hnodup hcapacity hname).filter (·.kind = kind)
  have hsame : (findings.toList.filter (·.kind.reporter? = some name)).filter (·.kind = kind) =
      findings.toList.filter (·.kind = kind) := by
    rw [List.filter_filter]
    apply List.filter_congr
    intro finding _
    by_cases h : finding.kind = kind <;> simp [h, hkind]
  rw [hsame] at hperm
  exact hperm

/-- Without the check on fields a run with room for all findings comes to its end. -/
theorem exists_run (hnodup : names.Nodup)
    (hcapacity : (names.flatMap document.report).length ≤ capacity)
    (hoff : limits.nodeCeiling? = none) :
    ∃ findings, (ofRules limits names capacity).run document = .ok findings := by
  obtain ⟨findings, hrun, -⟩ := run_ofRules hoff hnodup hcapacity
  exact ⟨findings, hrun⟩

end Validator

/-- A source that parses, with something said of its document. -/
theorem Document.exists_parse_of_map {α : Type} {f : Document → α} {value : α} {limits : Limits}
    {source : Source} (h : (parse limits source).toOption.map f = some value) :
    ∃ document, parse limits source = .ok document ∧ f document = value := by
  rcases hparse : parse limits source with fault | document
  · rw [hparse] at h
    cases h
  · rw [hparse] at h
    exact ⟨document, rfl, Option.some.inj h⟩

end GuardedQuery
