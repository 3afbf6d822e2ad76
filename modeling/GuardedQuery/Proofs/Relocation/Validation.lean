import GuardedQuery.Proofs.Relocation.Rules
import GuardedQuery.Proofs.Validation.Sorting
import GuardedQuery.Validation.Validator

/-! # Validating moved documents

Findings are sorted by where they start, and a relocation keeps the order of starts.  So a
moved document fails alike or has the same findings, in the same order.

- `Findings.move_push`, `Findings.move_sorted`: collecting findings that are moved.
- `Validator.visit_relocate`: one moved visit.
- `Validator.judge_of_definitions`: validation of a document whose definitions are moved.
-/

namespace GuardedQuery

/-! ## Collecting -/

namespace Findings

def move (places : ByteRange → ByteRange) (findings : Findings) : Findings :=
  { findings with entries := findings.entries.map (Finding.move places) }

variable {places : ByteRange → ByteRange}

theorem isFull_move (findings : Findings) : (findings.move places).isFull = findings.isFull := by
  obtain ⟨capacity, entries⟩ := findings
  simp only [isFull, move, Array.back?_map, Option.any_map]
  rfl

@[simp] theorem size_move (findings : Findings) :
    (findings.move places).size = findings.size := by
  simp [size, move]

theorem move_push (findings : Findings) (finding : Finding) :
    (findings.push finding).move places = (findings.move places).push (finding.move places) := by
  have hcapacity : (findings.move places).capacity = findings.capacity := rfl
  rw [push, push, isFull_move, size_move, hcapacity]
  split
  · simp [move]
  · split
    · rfl
    · simp [move]
      rfl

theorem move_pushAll (findings : Findings) (more : List Finding) :
    (findings.pushAll more).move places =
      (findings.move places).pushAll (more.map (Finding.move places)) := by
  induction more generalizing findings with
  | nil => rfl
  | cons finding more ih =>
    simp only [pushAll, List.foldl_cons, List.map_cons] at ih ⊢
    rw [ih, move_push]

/-- Places that keep the order of starts keep the order of findings. -/
theorem move_sorted {start : Nat → Nat} (hstart : StrictMono start)
    (hplaces : ∀ range, (places range).start = start range.start) (findings : Findings) :
    findings.sorted.move places = (findings.move places).sorted := by
  have hbefore (a b : Finding) :
      Finding.before a b = Finding.before (a.move places) (b.move places) := by
    rw [Bool.eq_iff_iff, Finding.before_iff, Finding.before_iff]
    simp only [Finding.kind_move, Finding.range_move, hplaces, hstart.lt_iff_lt,
      hstart.injective.eq_iff]
  have hsort (entries : List Finding) :
      (entries.mergeSort Finding.before).map (Finding.move places) =
        (entries.map (Finding.move places)).mergeSort Finding.before :=
    List.map_mergeSort fun a _ b _ => hbefore a b
  simp only [sorted, isFull_move]
  split <;> simp [move, hsort, Option.toList_map]

end Findings

/-! ## Validating -/

variable {r : Relocation}

def ByteRange.atStart (start : Nat → Nat) (range : ByteRange) : ByteRange :=
  .empty (start range.start)

/-- The rules of the second validator know the same, moved, and its findings start where
those of the first are moved to. -/
structure Validator.Moved (r : Relocation) (first second : Validator) : Prop where
  guard : second.guard = first.guard
  rules : second.rules = first.rules.map (Rule.relocate r)
  findings : second.findings.move (ByteRange.atStart id) =
    first.findings.move (ByteRange.atStart r.start)

theorem Finding.atStart_move (rule : Rule) (finding : Finding) :
    (finding.move (rule.places r)).move (ByteRange.atStart id) =
      finding.move (ByteRange.atStart r.start) := by
  cases rule <;> rfl

namespace Validator

theorem Moved.collect {first second : Validator} (h : Moved r first second)
    {found : Rule → List Finding} {moved : Rule → List Finding}
    (hfound : ∀ rule, moved (rule.relocate r) = (found rule).map (Finding.move (rule.places r))) :
    (second.findings.pushAll (second.rules.flatMap moved)).move (ByteRange.atStart id) =
      (first.findings.pushAll (first.rules.flatMap found)).move (ByteRange.atStart r.start) := by
  have hmoved : (second.rules.flatMap moved).map (Finding.move (ByteRange.atStart id)) =
      (first.rules.flatMap found).map (Finding.move (ByteRange.atStart r.start)) := by
    rw [h.rules, List.flatMap_map, List.map_flatMap, List.map_flatMap]
    refine congrArg (List.flatMap · _) (funext fun rule => ?_)
    rw [hfound, List.map_map]
    exact List.map_congr_left fun finding _ => Finding.atStart_move rule finding
  rw [Findings.move_pushAll, Findings.move_pushAll, h.findings, hmoved]

theorem Moved.withGuard {first second : Validator} (h : Moved r first second)
    (guard : Option FieldGuard) : Moved r { first with guard } { second with guard } :=
  ⟨rfl, h.rules, h.findings⟩

theorem Moved.visitRules {first second : Validator} (h : Moved r first second) (whole : ByteRange)
    (visit : Visit) :
    Moved r (first.visitRules visit) (second.visitRules (visit.relocate r whole)) where
  guard := h.guard
  rules := by
    simp [Validator.visitRules, h.rules, Function.comp_def, Rule.visit_relocate]
  findings := by
    simp only [Validator.visitRules, List.flatMap_map]
    exact h.collect fun rule => by rw [Rule.visit_relocate]

/-- One moved visit. -/
theorem Moved.visit {first second : Validator} (h : Moved r first second) (whole : ByteRange)
    (visit : Visit) :
    Moved r (first.visit visit).1 (second.visit (visit.relocate r whole)).1 ∧
      (second.visit (visit.relocate r whole)).2 = (first.visit visit).2 := by
  cases hguard : first.guard with
  | none =>
    have hguard' : second.guard = none := h.guard.trans hguard
    have hsame (other : Visit) : first.visit other = (first.visitRules other, none) := by
      cases other <;> simp [Validator.visit, hguard]
    have hsame' (other : Visit) : second.visit other = (second.visitRules other, none) := by
      cases other <;> simp [Validator.visit, hguard']
    rw [hsame, hsame']
    exact ⟨h.visitRules whole visit, rfl⟩
  | some guard =>
    have hguard' : second.guard = some guard := h.guard.trans hguard
    cases visit with
    | field f =>
      have hcheck : guard.check (f.relocate r) = guard.check f := rfl
      simp only [Validator.visit, Visit.relocate, hguard, hguard', hcheck]
      rcases guard.check f with ⟨counted, _ | fault⟩
      · exact ⟨(h.withGuard (some counted)).visitRules whole (.field f), rfl⟩
      · exact ⟨h.withGuard (some counted), rfl⟩
    | _ => exact ⟨h.visitRules whole _, rfl⟩

theorem Moved.traverse {first second : Validator} (h : Moved r first second) (whole : ByteRange)
    (visits : List Visit) :
    Moved r (GuardedQuery.traverse Validator.visit first visits).1
        (GuardedQuery.traverse Validator.visit second (visits.map (Visit.relocate r whole))).1 ∧
      (GuardedQuery.traverse Validator.visit second (visits.map (Visit.relocate r whole))).2 =
        (GuardedQuery.traverse Validator.visit first visits).2 := by
  induction visits generalizing first second with
  | nil => exact ⟨h, rfl⟩
  | cons visit visits ih =>
    have hvisit := h.visit whole visit
    simp only [List.map_cons, GuardedQuery.traverse]
    revert hvisit
    generalize first.visit visit = p
    generalize second.visit (visit.relocate r whole) = q
    obtain ⟨first, fault⟩ := p
    obtain ⟨second, fault'⟩ := q
    rintro ⟨hmoved, rfl⟩
    cases fault' with
    | none => exact ih hmoved
    | some fault => exact ⟨hmoved, rfl⟩

theorem moved_ofLimits (limits : Limits) : Moved r (ofLimits limits) (ofLimits limits) where
  guard := rfl
  rules := by simp [ofLimits, Function.comp_def, Rule.relocate_fresh]
  findings := by simp [ofLimits, Findings.move]

theorem Moved.leave (hr : r.Ordered) {first second : Validator} (h : Moved r first second) :
    second.leave.findings.sorted.move (ByteRange.atStart id) =
      first.leave.findings.sorted.move (ByteRange.atStart r.start) := by
  have hsorted {start : Nat → Nat} (hstart : StrictMono start) (findings : Findings) :
      findings.sorted.move (ByteRange.atStart start) =
        (findings.move (ByteRange.atStart start)).sorted :=
    findings.move_sorted hstart fun _ => rfl
  rw [hsorted strictMono_id, hsorted hr.start]
  exact congrArg Findings.sorted (h.collect (Rule.leave_relocate hr))

def judge (validator : Validator) (doc : Executable) : Except Fault Findings :=
  match GuardedQuery.traverse visit validator doc.visits with
  | (_, some fault) => .error fault
  | (validator, none) => .ok validator.leave.findings.sorted

theorem validate_eq_judge (document : Document) (limits : Limits) :
    document.validate limits = (ofLimits limits).judge document.executable := rfl

/-- A document with moved definitions fails alike, or has the same findings at the places
moved to. -/
theorem judge_of_definitions (hr : r.Ordered) {doc moved : Executable}
    (h : moved.definitions = doc.definitions.map (Definition.relocate r)) (limits : Limits) :
    ((ofLimits limits).judge moved).map (Findings.move (ByteRange.atStart id)) =
      ((ofLimits limits).judge doc).map (Findings.move (ByteRange.atStart r.start)) := by
  -- Two fresh validators stand alike; the visits of one document are those of the other, moved.
  have htraverse := (moved_ofLimits (r := r) limits).traverse moved.range doc.visits
  rw [← Executable.visits_of_definitions h] at htraverse
  simp only [judge]
  revert htraverse
  generalize GuardedQuery.traverse visit (ofLimits limits) doc.visits = p
  generalize GuardedQuery.traverse visit (ofLimits limits) moved.visits = q
  obtain ⟨first, fault⟩ := p
  obtain ⟨second, fault'⟩ := q
  rintro ⟨hmoved, rfl⟩
  cases fault' with
  | none => exact congrArg Except.ok (hmoved.leave hr)
  | some fault => rfl

end Validator

def Findings.said (findings : Findings) : List (FindingKind × String) :=
  findings.toList.map fun finding => (finding.kind, finding.message)

theorem Findings.said_move (places : ByteRange → ByteRange) (findings : Findings) :
    (findings.move places).said = findings.said := by
  simp [said, toList, move, Function.comp_def]

namespace Validator

/-- A document with moved definitions fails alike, or its findings say the same. -/
theorem said_judge_of_definitions (hr : r.Ordered) {doc moved : Executable}
    (h : moved.definitions = doc.definitions.map (Definition.relocate r)) (limits : Limits) :
    ((ofLimits limits).judge moved).map Findings.said =
      ((ofLimits limits).judge doc).map Findings.said := by
  have hjudge := congrArg (Except.map Findings.said) (judge_of_definitions hr h limits)
  have hsaid (places : ByteRange → ByteRange) (result : Except Fault Findings) :
      (result.map (Findings.move places)).map Findings.said = result.map Findings.said := by
    cases result with
    | ok findings => exact congrArg Except.ok (findings.said_move places)
    | error fault => rfl
  rwa [hsaid, hsaid] at hjudge

end Validator

end GuardedQuery
