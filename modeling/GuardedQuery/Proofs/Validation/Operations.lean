import GuardedQuery.Proofs.Executable.OperationNodes
import GuardedQuery.Proofs.Validation.Collecting
import GuardedQuery.Proofs.Validation.Spreads

/-! # What the rule on operation names finds

The findings on operations against the tree: which operations lack a name that they need,
and which have the name of an earlier one.

- `OperationNames.judgeAll`: what the rule reports of operations in order.
- `OperationNames.filter_lone`, `OperationNames.filter_duplicate`: its findings of each kind.
- `Document.ReportsOperationNames`: findings that are exact about the names of operations.
- `Validator.run_reports_operation_names`: a validation gives these.
-/

namespace GuardedQuery

/-! ## Names that repeat -/

def repeatedNames (names : List Token) : List Token :=
  (names.zipIdx.filter fun (name, index) => (names.take index).any (·.text = name.text)).map (·.1)

def repeatedBehind (before : List Token) : List Token → List Token
  | [] => []
  | name :: names =>
    if before.any (·.text = name.text) then name :: repeatedBehind (before ++ [name]) names
    else repeatedBehind (before ++ [name]) names

theorem repeatedBehind_eq (before names : List Token) :
    repeatedBehind before names =
      ((names.zipIdx before.length).filter fun (name, index) =>
        ((before ++ names).take index).any (·.text = name.text)).map (·.1) := by
  induction names generalizing before with
  | nil => rfl
  | cons name names ih =>
    have hrest := ih (before ++ [name])
    rw [List.length_append, List.length_singleton, List.append_assoc, List.singleton_append]
      at hrest
    rw [repeatedBehind, hrest, List.zipIdx_cons, List.filter_cons]
    simp only [List.take_left]
    split <;> rfl

theorem repeatedNames_eq (names : List Token) : repeatedNames names = repeatedBehind [] names :=
  (repeatedBehind_eq [] names).symm

/-! ## Along operations -/

namespace OperationNames

def judgeAll (rule : OperationNames) : List Operation → List Finding
  | [] => []
  | o :: operations => (rule.judge o).2 ++ judgeAll (rule.judge o).1 operations

def lone (head : Token) : Finding :=
  { kind := .loneAnonymousOperation, range := head.range }

def duplicate (name : Token) : Finding :=
  ⟨.duplicateOperationName, name.range,
    "there can be only one operation named '" ++ name.text ++ "'"⟩

variable {rule : OperationNames} {o : Operation}

theorem judge_of_none (rule : OperationNames) (h : o.name = none) :
    rule.judge o = (rule, if 1 < rule.count then [lone o.head] else []) := by
  rw [judge, h]
  rfl

/-- A name is known behind its operation, and comes again if it was known before. -/
theorem judge_of_some (rule : OperationNames) {name : Token} (h : o.name = some name) :
    (rule.judge o).1.count = rule.count ∧
      (∀ text, text ∈ (rule.judge o).1.seen ↔ text ∈ rule.seen ∨ text = name.text) ∧
      (rule.judge o).2 = if name.text ∈ rule.seen then [duplicate name] else [] := by
  simp only [judge, h, List.contains_eq_mem, decide_eq_true_eq]
  by_cases hseen : name.text ∈ rule.seen
  · rw [if_pos hseen]
    refine ⟨rfl, fun text => ⟨.inl, ?_⟩, (if_pos hseen).symm⟩
    rintro (h | rfl)
    · exact h
    · exact hseen
  · rw [if_neg hseen]
    refine ⟨rfl, fun text => ?_, (if_neg hseen).symm⟩
    rw [List.mem_cons, or_comm]

/-- If there are more operations than one, those without a name are reported. -/
theorem filter_lone (rule : OperationNames) (operations : List Operation) :
    (rule.judgeAll operations).filter (·.kind = .loneAnonymousOperation) =
      if 1 < rule.count then
        (operations.filter (·.name.isNone)).map fun o => lone o.head
      else [] := by
  induction operations generalizing rule with
  | nil => simp [judgeAll]
  | cons o operations ih =>
    rw [judgeAll, List.filter_append, ih]
    cases hname : o.name with
    | none =>
      rw [judge_of_none _ hname]
      split <;> simp [hname, lone]
    | some name =>
      obtain ⟨hcount, -, hfound⟩ := judge_of_some rule hname
      have hnone : (rule.judge o).2.filter (·.kind = .loneAnonymousOperation) = [] := by
        rw [hfound]
        split <;> rfl
      rw [hnone, hcount]
      simp [hname]

/-- A name is reported if it was known in advance or comes again. -/
theorem filter_duplicate (rule : OperationNames) {before : List Token}
    (hseen : ∀ text, text ∈ rule.seen ↔ before.any (·.text = text))
    (operations : List Operation) :
    (rule.judgeAll operations).filter (·.kind = .duplicateOperationName) =
      (repeatedBehind before (operations.filterMap (·.name))).map duplicate := by
  induction operations generalizing rule before with
  | nil => rfl
  | cons o operations ih =>
    rw [judgeAll, List.filter_append]
    cases hname : o.name with
    | none =>
      have hnone : (rule.judge o).2.filter (·.kind = .duplicateOperationName) = [] := by
        rw [judge_of_none _ hname]
        split <;> rfl
      rw [hnone, judge_of_none _ hname, ih rule hseen, List.filterMap_cons_none hname]
      rfl
    | some name =>
      obtain ⟨-, hknown, hfound⟩ := judge_of_some rule hname
      have hnext : ∀ text, text ∈ (rule.judge o).1.seen ↔
          (before ++ [name]).any (·.text = text) := by
        intro text
        rw [hknown, hseen, List.any_append, Bool.or_eq_true, eq_comm (a := text)]
        simp
      rw [ih _ hnext, hfound, List.filterMap_cons_some hname, repeatedBehind]
      by_cases hrepeated : before.any (·.text = name.text)
      · rw [if_pos ((hseen _).2 hrepeated), if_pos hrepeated]
        rfl
      · rw [if_neg (mt (hseen _).1 hrepeated), if_neg hrepeated]
        rfl

theorem kind_of_mem_judgeAll {operations : List Operation} {finding : Finding}
    (h : finding ∈ rule.judgeAll operations) :
    finding.kind = .loneAnonymousOperation ∨ finding.kind = .duplicateOperationName := by
  induction operations generalizing rule with
  | nil => cases h
  | cons o operations ih =>
    rcases List.mem_append.1 h with h | h
    · cases hname : o.name with
      | none =>
        rw [judge_of_none _ hname] at h
        split at h
        · exact .inl (congrArg Finding.kind (List.mem_singleton.1 h))
        · cases h
      | some name =>
        rw [(judge_of_some _ hname).2.2] at h
        split at h
        · exact .inr (congrArg Finding.kind (List.mem_singleton.1 h))
        · cases h
    · exact ih h

/-! ## Along visits -/

def operation? : Visit → Option Operation
  | .operation o => some o
  | _ => none

/-- Inside a document the rule judges the operations. -/
theorem reports_eq (rule : OperationNames) {visits : List Visit}
    (h : ∀ visit ∈ visits, ∀ doc, visit ≠ .document doc) :
    Rule.reports [.operationNames rule] visits = rule.judgeAll (visits.filterMap operation?) := by
  induction visits generalizing rule with
  | nil => rfl
  | cons visit visits ih =>
    rw [List.forall_mem_cons] at h
    have hrest := ih (rule.visit visit).1 h.2
    cases visit with
    | document doc => exact absurd rfl (h.1 doc)
    | operation o => simpa [Rule.reports, Rule.visit, operation?, judgeAll, visit] using hrest
    | _ => exact hrest

/-- A walk over a definition comes across the operation that it is. -/
theorem operation?_visits (definition : Definition) :
    definition.visits.filterMap operation? =
      match definition with
      | .operation o => [o]
      | .fragment _ => [] := by
  have hinner (directives : Option (List Directive)) (set : SelectionSet) :
      (Directive.allVisits directives ++ set.visits).filterMap operation? = [] := by
    rw [List.filterMap_eq_nil_iff]
    intro visit hvisit
    have hinner := (SelectionSet.shows_body directives set).inner visit hvisit
    cases visit with
    | operation _ => cases hinner
    | _ => rfl
  cases definition with
  | operation o =>
    have hfirst : operation? (.operation o) = some o := rfl
    rw [Definition.visits, Operation.visits, List.filterMap_cons_some hfirst,
      List.filterMap_append, Visit.filterMap_variableDefinitions fun _ => rfl, hinner]
    rfl
  | fragment f =>
    rw [Definition.visits, Fragment.visits, List.filterMap_cons_none rfl, hinner]

end OperationNames

namespace Document

variable {limits : Limits} {source : Source} {document : Document}

/-- The rule judges the operations of a document, knowing how many there are. -/
theorem report_operationNames (document : Document) :
    document.report .operationNames =
      OperationNames.judgeAll { count := document.executable.operations.length }
        document.executable.operations := by
  rw [report]
  generalize document.executable = doc
  have hinner : ∀ visit ∈ doc.definitions.flatMap Definition.visits, ∀ doc,
      visit ≠ .document doc := by
    intro visit hvisit
    obtain ⟨definition, -, hvisit⟩ := List.mem_flatMap.1 hvisit
    exact Definition.ne_document_of_mem_visits hvisit
  have hoperations : (doc.definitions.flatMap Definition.visits).filterMap
      OperationNames.operation? = doc.operations := by
    rw [List.filterMap_flatMap, Executable.operations, List.filterMap_eq_flatMap_toList]
    refine List.flatMap_congr fun definition _ => ?_
    rw [OperationNames.operation?_visits]
    cases definition <;> rfl
  have hreports := OperationNames.reports_eq { count := doc.operations.length } hinner
  rw [hoperations] at hreports
  rw [doc.visits_eq, ← hreports]
  rfl

/-! ## Exact findings -/

/-- Among several operations there is one finding for each without a name, at its first
token.  There is one for each name that an earlier operation has, at the later name. -/
structure ReportsOperationNames (document : Document) (findings : List Finding) : Prop where
  heads : ∀ node ∈ document.operationNodes, node.headToken?.isSome
  lone : (findings.filter (·.kind = .loneAnonymousOperation)).Perm
    (if 1 < document.operationNodes.length then
      ((document.operationNodes.filter (·.operationName?.isNone)).filterMap Tree.headToken?).map
        fun head => ⟨.loneAnonymousOperation, head.range,
          "an anonymous operation must be the only defined operation"⟩
    else [])
  duplicate : (findings.filter (·.kind = .duplicateOperationName)).Perm
    ((repeatedNames (document.operationNodes.filterMap Tree.operationName?)).map fun name =>
      ⟨.duplicateOperationName, name.range,
        "there can be only one operation named '" ++ name.text ++ "'"⟩)

/-- What the rule reports, read off the nodes. -/
theorem filter_report_operationNames (h : parse limits source = .ok document) :
    (∀ node ∈ document.operationNodes, node.headToken?.isSome) ∧
    (document.report .operationNames).filter (·.kind = .loneAnonymousOperation) =
      (if 1 < document.operationNodes.length then
        ((document.operationNodes.filter (·.operationName?.isNone)).filterMap
          Tree.headToken?).map OperationNames.lone
      else []) ∧
    (document.report .operationNames).filter (·.kind = .duplicateOperationName) =
      (repeatedNames (document.operationNodes.filterMap Tree.operationName?)).map
        OperationNames.duplicate := by
  have hnodes := operations_of_parse h
  have hlength : document.operationNodes.length = document.executable.operations.length := by
    simpa using congrArg List.length hnodes
  have hheads : document.operationNodes.map (·.headToken?.isSome) =
      document.executable.operations.map fun _ => true := by
    simpa [Function.comp_def] using congrArg (List.map fun pair => pair.1.isSome) hnodes
  have hlone : (document.operationNodes.filter (·.operationName?.isNone)).filterMap
        Tree.headToken? =
      (document.executable.operations.filter (·.name.isNone)).map (·.head) := by
    have hpairs := congrArg (fun pairs => (pairs.filter (·.2.isNone)).filterMap (·.1)) hnodes
    simpa [List.filter_map, List.filterMap_map, Function.comp_def] using hpairs
  have hnames : document.operationNodes.filterMap Tree.operationName? =
      document.executable.operations.filterMap (·.name) := by
    have hpairs := congrArg (List.filterMap (·.2)) hnodes
    simpa [List.filterMap_map, Function.comp_def] using hpairs
  rw [hlone, hlength, hnames, List.map_map, report_operationNames, repeatedNames_eq]
  refine ⟨fun node hnode => ?_, OperationNames.filter_lone _ _, ?_⟩
  · have hmem := List.mem_map_of_mem (f := fun node : Tree => node.headToken?.isSome) hnode
    rw [hheads] at hmem
    obtain ⟨_, -, hsome⟩ := List.mem_map.1 hmem
    exact hsome.symm
  · exact OperationNames.filter_duplicate _ (fun text => by simp) _

end Document

/-! ## Validations -/

namespace Validator

variable {limits checks : Limits} {source : Source} {document : Document}
  {names : List RuleName} {capacity : Nat}

/-- Findings on operation names are exact.  A validation of an accepted document with room
for all findings, unless too many fields end it, reports every operation that lacks a name
next to others and every name that an earlier operation has, and nothing else of these kinds.
The rule alone finds nothing of other kinds. -/
theorem run_reports_operation_names (hparse : Document.parse limits source = .ok document)
    (hnodup : names.Nodup) (hrule : .operationNames ∈ names)
    (hcapacity : (names.flatMap document.report).length ≤ capacity) :
    (checks.nodeCeiling? = none →
      ∃ findings, (ofRules checks names capacity).run document = .ok findings) ∧
    ∀ findings, (ofRules checks names capacity).run document = .ok findings →
      document.ReportsOperationNames findings.toList ∧
      (names = [.operationNames] → ∀ finding ∈ findings.toList,
        finding.kind = .loneAnonymousOperation ∨ finding.kind = .duplicateOperationName) := by
  refine ⟨exists_run hnodup hcapacity, fun findings hrun => ⟨?_, ?_⟩⟩
  · obtain ⟨hheads, hlone, hduplicate⟩ := Document.filter_report_operationNames hparse
    refine ⟨hheads, ?_, ?_⟩
    · have hkind : FindingKind.loneAnonymousOperation.reporter? = some .operationNames := rfl
      have hperm := filter_kind_perm hrun hnodup hcapacity hrule hkind
      rwa [hlone] at hperm
    · have hkind : FindingKind.duplicateOperationName.reporter? = some .operationNames := rfl
      have hperm := filter_kind_perm hrun hnodup hcapacity hrule hkind
      rwa [hduplicate] at hperm
  · rintro rfl finding hfinding
    have hmem := (isStableSort_of_run hrun hnodup hcapacity).perm.mem_iff.1 hfinding
    rw [List.flatMap_singleton, document.report_operationNames] at hmem
    exact OperationNames.kind_of_mem_judgeAll hmem

/-- A short form, two operations of one name with a fragment of that name between them, and a
keyword without a name. -/
theorem run_reports_names_around_fragment :
    let source : Source := ⟨[⟨none,
      "\x7ba\x7d query A\x7ba\x7d fragment A on T\x7ba\x7d mutation A\x7ba\x7d query\x7ba\x7d",
      0⟩], 56⟩
    let checks : Limits := { nodes := 0 }
    ∃ document capacity findings, Document.parse {} source = .ok document ∧
      document.operationNodes.map (fun node => node.operationName?.map (·.text)) =
        [none, some "A", some "A", none] ∧
      (ofRules checks [.operationNames] capacity).run document = .ok findings ∧
      document.ReportsOperationNames findings.toList := by
  intro source checks
  have hmap : (Document.parse {} source).toOption.map (fun document =>
      document.operationNodes.map fun node => node.operationName?.map (·.text)) =
        some [none, some "A", some "A", none] := by
    decide +kernel
  obtain ⟨document, hparse, hnames⟩ := Document.exists_parse_of_map hmap
  obtain ⟨hends, hreports⟩ := @run_reports_operation_names {} checks source document
    [.operationNames] _ hparse (List.nodup_singleton _) List.mem_cons_self (Nat.le_refl _)
  obtain ⟨findings, hrun⟩ := hends rfl
  exact ⟨document, _, findings, hparse, hnames, hrun, (hreports findings hrun).1⟩

end Validator

end GuardedQuery
