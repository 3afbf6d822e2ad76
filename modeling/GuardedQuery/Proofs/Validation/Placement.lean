import GuardedQuery.Proofs.Executable.Spans
import GuardedQuery.Proofs.Validation.Capacity
import GuardedQuery.Proofs.Validation.CycleSearch
import GuardedQuery.Proofs.Validation.Variables

/-! # Where findings are

A rule knows only ranges that it has read off a visit, and it reports only ranges that it
knows.  So whatever holds of the ranges of all visits holds of every finding.

- `Rule.Within`: a rule that knows ranges of one sort only.
- `Rule.Within.visit`, `Rule.Within.leave`: one visit and the end of the document.
- `Rule.Within.reports`: any rules along any visits.
- `Validator.spans_of_run`: the findings on an accepted document span significant tokens.
-/

namespace GuardedQuery

/-! ## Values of one sort -/

namespace ByName

variable {α : Type} {p : α → Prop} {map : ByName α} {name : String} {value : α}

def All (p : α → Prop) (map : ByName α) : Prop :=
  ∀ entry ∈ map.entries, p entry.2

theorem All.insertNew (h : map.All p) (hvalue : p value) : (map.insertNew name value).All p := by
  rw [ByName.insertNew]
  split
  next => exact h
  next => exact List.forall_mem_append.2 ⟨h, List.forall_mem_singleton.2 hvalue⟩

theorem All.foldl_insertNew {β : Type} {key : β → String} {own : β → α} {xs : List β}
    (h : map.All p) (hxs : ∀ x ∈ xs, p (own x)) :
    (xs.foldl (fun map x => map.insertNew (key x) (own x)) map).All p := by
  induction xs generalizing map with
  | nil => exact h
  | cons x xs ih =>
    rw [List.forall_mem_cons] at hxs
    exact ih (h.insertNew hxs.1) hxs.2

theorem All.update {change : α → α} (h : map.All p) (hchange : ∀ value, p value → p (change value)) :
    (map.update name change).All p := by
  intro entry hentry
  obtain ⟨old, hold, rfl⟩ := List.mem_map.1 hentry
  dsimp only
  split
  · exact hchange _ (h old hold)
  · exact h old hold

theorem All.get? (h : map.All p) (hvalue : map.get? name = some value) : p value := by
  obtain ⟨front, back, hentries, -⟩ := List.lookup_eq_some_iff.1 hvalue
  exact h (name, value) (by simp [hentries])

end ByName

/-! ## Rules -/

variable {p : ByteRange → Prop}

structure FragmentUsage.Within (p : ByteRange → Prop) (rule : FragmentUsage) : Prop where
  defined : rule.defined.All p
  graph : rule.graph.All fun spreads => ∀ spread ∈ spreads, p spread.2

namespace FragmentUsage.Within

variable {rule : FragmentUsage}

theorem define (h : rule.Within p) {doc : Executable}
    (hdoc : ∀ range ∈ (Visit.document doc).ranges, p range) : (rule.define doc).Within p where
  defined := h.defined.foldl_insertNew fun _ hfragment => hdoc _ (List.mem_map_of_mem hfragment)
  graph := h.graph

theorem spread (h : rule.Within p) {name : Token} (hname : p name.range) :
    (rule.spread name).1.Within p ∧ ∀ finding ∈ (rule.spread name).2, p finding.range := by
  constructor
  · rw [FragmentUsage.spread]
    cases rule.owner with
    | nobody => exact h
    | operation => exact ⟨h.defined, h.graph⟩
    | fragment owner =>
      refine ⟨h.defined, h.graph.update fun spreads hspreads => ?_⟩
      exact List.forall_mem_append.2 ⟨hspreads, List.forall_mem_singleton.2 hname⟩
  · rw [FragmentUsage.spread]
    dsimp only
    split
    · exact fun _ hfinding => absurd hfinding List.not_mem_nil
    · exact List.forall_mem_singleton.2 hname

/-- A visit teaches the rule the ranges of that visit, and it reports no others. -/
theorem visit (h : rule.Within p) {visit : Visit} (hvisit : ∀ range ∈ visit.ranges, p range) :
    (rule.visit visit).1.Within p ∧ ∀ finding ∈ (rule.visit visit).2, p finding.range := by
  cases visit with
  | document doc => exact ⟨h.define hvisit, nofun⟩
  | operation o => exact ⟨⟨h.defined, h.graph⟩, nofun⟩
  | fragment f => exact ⟨⟨h.defined, h.graph.insertNew nofun⟩, nofun⟩
  | spread s => exact h.spread (hvisit _ (.tail _ List.mem_cons_self))
  | _ => exact ⟨h, nofun⟩

/-- A search for cycles reports spreads of the graph. -/
theorem follow {graph : SpreadGraph} {path : List String} {search : SpreadGraph.Search}
    {spreads : List (String × ByteRange)}
    (hgraph : graph.All fun spreads => ∀ spread ∈ spreads, p spread.2)
    (hfound : ∀ finding ∈ search.found, p finding.range)
    (hspreads : ∀ spread ∈ spreads, p spread.2) :
    ∀ finding ∈ (graph.follow path search spreads).found, p finding.range := by
  fun_induction SpreadGraph.follow graph path search spreads with
  | case1 => exact hfound
  | case2 path search target range rest hcycle ih =>
    rw [List.forall_mem_cons] at hspreads
    exact ih (List.forall_mem_cons.2 ⟨hspreads.1, hfound⟩) hspreads.2
  | case3 path search target range rest hnew hdone ih =>
    exact ih hfound (List.forall_mem_cons.1 hspreads).2
  | case4 path search target range rest hnew hdone hknown ih =>
    exact ih hfound (List.forall_mem_cons.1 hspreads).2
  | case5 path search target range rest hnew hdone spreads hknown inner ihinner ih =>
    exact ih (ihinner hfound (hgraph.get? hknown)) (List.forall_mem_cons.1 hspreads).2

theorem cycles {graph : SpreadGraph}
    (hgraph : graph.All fun spreads => ∀ spread ∈ spreads, p spread.2) :
    ∀ finding ∈ graph.cycles, p finding.range := by
  have hsearch (entries : List (String × List (String × ByteRange)))
      (hentries : ∀ entry ∈ entries, ∀ spread ∈ entry.2, p spread.2) (search : SpreadGraph.Search)
      (hfound : ∀ finding ∈ search.found, p finding.range) :
      ∀ finding ∈ (entries.foldl graph.searchFrom search).found, p finding.range := by
    induction entries generalizing search with
    | nil => exact hfound
    | cons entry entries ih =>
      rw [List.forall_mem_cons] at hentries
      refine ih hentries.2 _ ?_
      rw [SpreadGraph.searchFrom]
      split
      next => exact hfound
      next => exact follow hgraph hfound hentries.1
  intro finding hfinding
  rw [SpreadGraph.cycles_eq, List.mem_reverse] at hfinding
  exact hsearch graph.entries hgraph {} (List.forall_mem_nil _) finding hfinding

theorem leave (h : rule.Within p) : ∀ finding ∈ rule.leave, p finding.range := by
  rw [FragmentUsage.leave, List.forall_mem_append]
  refine ⟨fun finding hfinding => ?_, cycles h.graph⟩
  obtain ⟨entry, hentry, rfl⟩ := List.mem_map.1 hfinding
  exact h.defined entry (List.mem_of_mem_filter hentry)

end FragmentUsage.Within

structure VariableUsage.Within (p : ByteRange → Prop) (rule : VariableUsage) : Prop where
  defined : ∀ operation ∈ rule.operations, operation.defined.All p
  used : ∀ operation ∈ rule.operations, ∀ use ∈ operation.scope.used, p use.2
  fragments : rule.fragments.All fun scope => ∀ use ∈ scope.used, p use.2

namespace VariableUsage.Within

variable {rule : VariableUsage}

theorem updateOperation (h : rule.Within p) {change : OperationScope → OperationScope}
    (hdefined : ∀ operation, operation.defined.All p → (change operation).defined.All p)
    (hused : ∀ operation, (∀ use ∈ operation.scope.used, p use.2) →
      ∀ use ∈ (change operation).scope.used, p use.2) :
    (rule.updateOperation change).Within p := by
  obtain ⟨hd, hu, hf⟩ := h
  rw [VariableUsage.updateOperation]
  cases hoperations : rule.operations with
  | nil => exact ⟨hd, hu, hf⟩
  | cons latest earlier =>
    rw [hoperations, List.forall_mem_cons] at hd hu
    exact ⟨List.forall_mem_cons.2 ⟨hdefined latest hd.1, hd.2⟩,
      List.forall_mem_cons.2 ⟨hused latest hu.1, hu.2⟩, hf⟩

theorem updateScope (h : rule.Within p) {change : VariableScope → VariableScope}
    (hchange : ∀ scope : VariableScope, (∀ use ∈ scope.used, p use.2) →
      ∀ use ∈ (change scope).used, p use.2) :
    (rule.updateScope change).Within p := by
  rw [VariableUsage.updateScope]
  cases rule.owner with
  | nobody => exact h
  | operation => exact h.updateOperation (fun _ => id) fun operation => hchange operation.scope
  | fragment name => exact ⟨h.defined, h.used, h.fragments.update hchange⟩

/-- A visit teaches the rule the ranges of that visit. -/
theorem visit (h : rule.Within p) {visit : Visit} (hvisit : ∀ range ∈ visit.ranges, p range) :
    (rule.visit visit).Within p := by
  cases visit with
  | operation o =>
    exact ⟨List.forall_mem_cons.2 ⟨nofun, h.defined⟩, List.forall_mem_cons.2 ⟨nofun, h.used⟩,
      h.fragments⟩
  | fragment f => exact ⟨h.defined, h.used, h.fragments.insertNew nofun⟩
  | variableDefinition d =>
    refine h.updateOperation (fun operation hdefined => ?_) fun _ => id
    exact hdefined.insertNew (hvisit _ (.tail _ List.mem_cons_self))
  | spread s =>
    show (rule.updateScope (·.spread s.name.text)).Within p
    exact h.updateScope fun _ => id
  | use target =>
    show (rule.updateScope (·.use target)).Within p
    refine h.updateScope fun scope hscope => ?_
    exact List.forall_mem_append.2
      ⟨hscope, List.forall_mem_singleton.2 (hvisit _ List.mem_cons_self)⟩
  | _ => exact h

theorem allUses (h : rule.Within p) {scope : VariableScope} (hscope : ∀ use ∈ scope.used, p use.2) :
    ∀ use ∈ rule.allUses scope, p use.2 := by
  rw [VariableUsage.allUses, List.forall_mem_append]
  refine ⟨hscope, fun use huse => ?_⟩
  obtain ⟨name, -, huse⟩ := List.mem_flatMap.1 huse
  cases hfragment : rule.fragments.get? name with
  | none =>
    rw [hfragment] at huse
    cases huse
  | some found =>
    rw [hfragment] at huse
    exact h.fragments.get? hfragment use huse

theorem leave (h : rule.Within p) : ∀ finding ∈ rule.leave, p finding.range := by
  intro finding hfinding
  obtain ⟨operation, hoperation, hfinding⟩ := List.mem_flatMap.1 hfinding
  rw [List.mem_reverse] at hoperation
  rcases List.mem_append.1 hfinding with hfinding | hfinding
  · obtain ⟨use, huse, rfl⟩ := List.mem_map.1 hfinding
    exact h.allUses (h.used operation hoperation) use
      (List.mem_of_mem_filter (VariableUsage.mem_distinct.1 huse))
  · obtain ⟨entry, hentry, rfl⟩ := List.mem_map.1 hfinding
    exact h.defined operation hoperation entry (List.mem_of_mem_filter hentry)

end VariableUsage.Within

/-- A finding on an operation is at its first token or at its name. -/
theorem OperationNames.range_of_mem_visit {rule : OperationNames} {visit : Visit}
    (hvisit : ∀ range ∈ visit.ranges, p range) :
    ∀ finding ∈ (rule.visit visit).2, p finding.range := by
  cases visit with
  | operation o =>
    have hhead : p o.head.range := hvisit _ (.tail _ List.mem_cons_self)
    have hname (name : Token) (h : o.name = some name) : p name.range := by
      refine hvisit _ (.tail _ (.tail _ ?_))
      rw [h]
      exact List.mem_cons_self
    rw [OperationNames.visit, judge]
    split
    next =>
      split
      · exact List.forall_mem_singleton.2 hhead
      · exact List.forall_mem_nil _
    next name h =>
      split
      · exact List.forall_mem_singleton.2 (hname name h)
      · exact List.forall_mem_nil _
  | _ => exact List.forall_mem_nil _

namespace Rule

def Within (p : ByteRange → Prop) : Rule → Prop
  | operationNames _ => True
  | fragmentUsage state => state.Within p
  | variableUsage state => state.Within p

theorem within_fresh (name : RuleName) : (fresh name).Within p := by
  cases name with
  | operationNames => exact trivial
  | fragmentUsage => exact ⟨nofun, nofun⟩
  | variableUsage => exact ⟨nofun, nofun, nofun⟩

variable {rule : Rule} {rules : List Rule} {visits : List Visit}

theorem Within.visit (h : rule.Within p) {visit : Visit}
    (hvisit : ∀ range ∈ visit.ranges, p range) :
    (rule.visit visit).1.Within p ∧ ∀ finding ∈ (rule.visit visit).2, p finding.range := by
  cases rule with
  | operationNames state => exact ⟨trivial, OperationNames.range_of_mem_visit hvisit⟩
  | fragmentUsage state => exact FragmentUsage.Within.visit h hvisit
  | variableUsage state => exact ⟨VariableUsage.Within.visit h hvisit, nofun⟩

theorem Within.leave (h : rule.Within p) : ∀ finding ∈ rule.leave, p finding.range := by
  cases rule with
  | operationNames state => exact nofun
  | fragmentUsage state => exact FragmentUsage.Within.leave h
  | variableUsage state => exact VariableUsage.Within.leave h

/-- What rules report along visits is of the sort of what they know and of what is visited. -/
theorem range_of_mem_reports (hrules : ∀ rule ∈ rules, rule.Within p)
    (hvisits : ∀ visit ∈ visits, ∀ range ∈ visit.ranges, p range) :
    ∀ finding ∈ reports rules visits, p finding.range := by
  induction visits generalizing rules with
  | nil =>
    intro finding hfinding
    obtain ⟨rule, hrule, hfinding⟩ := List.mem_flatMap.1 hfinding
    exact (hrules rule hrule).leave finding hfinding
  | cons visit visits ih =>
    rw [List.forall_mem_cons] at hvisits
    rw [reports, List.forall_mem_append]
    constructor
    · intro finding hfinding
      obtain ⟨rule, hrule, hfinding⟩ := List.mem_flatMap.1 hfinding
      exact ((hrules rule hrule).visit hvisits.1).2 finding hfinding
    · refine ih (fun rule hrule => ?_) hvisits.2
      obtain ⟨before, hbefore, rfl⟩ := List.mem_map.1 hrule
      exact ((hrules before hbefore).visit hvisits.1).1

end Rule

/-! ## Validations -/

namespace Validator

variable {limits : Limits} {names : List RuleName} {capacity : Nat} {document : Document}
  {findings : Findings}

/-- What is collected, the mark of dropped findings included, is at the place of something
that a rule reports. -/
theorem exists_reported_of_run (hrun : (ofRules limits names capacity).run document = .ok findings) :
    ∀ finding ∈ findings.toList, ∃ reported ∈ collected names document,
      finding.range = reported.range := by
  obtain ⟨all, sorted, hall, hsorted, hlist⟩ :=
    run_collects (names.map Rule.fresh) capacity document
  have hsame : findings = all := by
    have hplain := run_unguarded hrun
    exact Except.ok.inj (hplain.symm.trans hall)
  rw [hsame, hlist, List.forall_mem_append]
  constructor
  · intro finding hfinding
    exact ⟨finding, List.mem_of_mem_take (hsorted.perm.mem_iff.1 hfinding), rfl⟩
  · intro finding hfinding
    rw [Option.mem_toList, Option.map_eq_some_iff] at hfinding
    obtain ⟨dropped, hdropped, rfl⟩ := hfinding
    exact ⟨dropped, List.mem_of_getElem? hdropped, rfl⟩

/-- The findings on an accepted document span significant tokens. -/
theorem spans_of_run {allowed : Limits} {source : Source}
    (hparse : Document.parse allowed source = .ok document)
    (hrun : (ofRules limits names capacity).run document = .ok findings) :
    ∀ finding ∈ findings.toList, finding.range.Spans (significant (lex source.text)) := by
  intro finding hfinding
  obtain ⟨reported, hreported, hrange⟩ := exists_reported_of_run hrun finding hfinding
  rw [hrange]
  refine Rule.range_of_mem_reports (fun rule hrule => ?_) (Document.spans_of_mem_visits hparse)
    reported hreported
  obtain ⟨name, -, rfl⟩ := List.mem_map.1 hrule
  exact Rule.within_fresh name

end Validator

end GuardedQuery
