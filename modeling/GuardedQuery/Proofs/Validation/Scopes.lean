import GuardedQuery.Proofs.Executable.Places
import GuardedQuery.Proofs.Validation.Spreads

/-! # What the rule on variables knows

Inside a definition every visit adds to one scope, so what the rule on variables knows at
the end of a document can be said in advance: a scope for each operation, and one for each
name of fragments.

- `Operation.scope`, `Executable.fragmentScopes`: these scopes.
- `VariableUsage.after`: what the rule knows after some visits.
- `VariableUsage.Knows`: it knows a document.
- `VariableUsage.Knows.mem_allUses`: the uses it goes by are those of the document.
-/

namespace GuardedQuery

def Variable.place (target : Variable) : String × ByteRange :=
  (target.name.text, target.range)

/-! ## Scopes -/

namespace VariableScope

def add (spreads : List Token) (uses : List Variable) (scope : VariableScope) : VariableScope where
  used := scope.used ++ uses.map Variable.place
  spreads := scope.spreads ++ spreads.map (·.text)

@[simp] theorem used_add (spreads : List Token) (uses : List Variable) (scope : VariableScope) :
    (scope.add spreads uses).used = scope.used ++ uses.map Variable.place := rfl

@[simp] theorem spreads_add (spreads : List Token) (uses : List Variable) (scope : VariableScope) :
    (scope.add spreads uses).spreads = scope.spreads ++ spreads.map (·.text) := rfl

theorem add_nil : add [] [] = id := by
  funext scope
  simp [add]

theorem add_add (spreads names : List Token) (uses targets : List Variable) :
    add names targets ∘ add spreads uses = add (spreads ++ names) (uses ++ targets) := by
  funext scope
  simp [add]

end VariableScope

def OperationScope.defineAll (operation : OperationScope)
    (definitions : List VariableDefinition) : OperationScope :=
  let defined := definitions.foldl
    (fun defined d => defined.insertNew d.target.name.text d.target.range) operation.defined
  { operation with defined }

def Operation.scope (operation : Operation) : OperationScope where
  name := operation.name.map (·.text)
  defined := .firsts (·.target.name.text) (·.target.range) operation.definedVariables
  scope := VariableScope.add operation.spreads operation.bodyUses {}

def Executable.addScope (scopes : ByName VariableScope) (fragment : Fragment) :
    ByName VariableScope :=
  scopes.gather (·.name.text) {} (fun scope f => scope.add f.spreads f.uses) fragment

def Executable.fragmentScopes (doc : Executable) : ByName VariableScope :=
  doc.fragments.foldl addScope {}

/-! ## Along visits -/

namespace VariableUsage

variable (rule : VariableUsage) {visits : List Visit}

def after (visits : List Visit) : VariableUsage :=
  visits.foldl visit rule

theorem after_append (visits more : List Visit) :
    rule.after (visits ++ more) = (rule.after visits).after more :=
  List.foldl_append

/-- The rule reports at the end only. -/
theorem reports_eq (visits : List Visit) :
    Rule.reports [.variableUsage rule] visits = (rule.after visits).leave := by
  induction visits generalizing rule with
  | nil => simp [Rule.reports, Rule.leave, after]
  | cons visit visits ih => simpa [Rule.reports, Rule.visit, after] using ih (rule.visit visit)

theorem updateScope_id : rule.updateScope id = rule := by
  obtain ⟨operations, fragments, owner⟩ := rule
  cases owner with
  | nobody => rfl
  | operation => cases operations <;> rfl
  | fragment name => simp [updateScope, ByName.update]

theorem updateScope_updateScope (change more : VariableScope → VariableScope) :
    (rule.updateScope change).updateScope more = rule.updateScope (more ∘ change) := by
  obtain ⟨operations, fragments, owner⟩ := rule
  cases owner with
  | nobody => rfl
  | operation => cases operations <;> rfl
  | fragment name => simp [updateScope, ByName.update_update]

/-- A visit of an inner part adds what it spreads and uses. -/
theorem visit_of_isInner {visit : Visit} (h : visit.isInner) :
    rule.visit visit =
      rule.updateScope (.add visit.spread?.toList visit.use?.toList) := by
  cases visit with
  | document _ | operation _ | fragment _ | variableDefinition _ => cases h
  | spread s =>
    rw [VariableUsage.visit]
    congr 1
    funext scope
    simp [VariableScope.spread, VariableScope.add, Visit.spread?, Visit.use?]
  | use target =>
    rw [VariableUsage.visit]
    congr 1
    funext scope
    simp [VariableScope.use, VariableScope.add, Visit.spread?, Visit.use?, Variable.place]
  | _ =>
    change rule = rule.updateScope (.add [] [])
    rw [VariableScope.add_nil, updateScope_id]

/-- The parts inside a definition add their spreads and uses. -/
theorem after_of_isInner (h : ∀ visit ∈ visits, visit.isInner) :
    rule.after visits = rule.updateScope
      (.add (visits.filterMap Visit.spread?) (visits.filterMap Visit.use?)) := by
  induction visits generalizing rule with
  | nil =>
    change rule = rule.updateScope (.add [] [])
    rw [VariableScope.add_nil, updateScope_id]
  | cons visit visits ih =>
    rw [List.forall_mem_cons] at h
    have hrest := ih (rule.visit visit) h.2
    rw [visit_of_isInner rule h.1, updateScope_updateScope, VariableScope.add_add] at hrest
    have hspreads : (visit :: visits).filterMap Visit.spread? =
        visit.spread?.toList ++ visits.filterMap Visit.spread? := by
      cases hspread : visit.spread? <;> simp [hspread]
    have huses : (visit :: visits).filterMap Visit.use? =
        visit.use?.toList ++ visits.filterMap Visit.use? := by
      cases huse : visit.use? <;> simp [huse]
    rw [hspreads, huses, ← hrest, ← visit_of_isInner rule h.1]
    rfl

/-! ## Along definitions -/

/-- Variable definitions go to the latest operation. -/
theorem after_variableDefinitions {latest : OperationScope} {earlier : List OperationScope}
    (h : rule.operations = latest :: earlier) (definitions : List VariableDefinition) :
    rule.after (definitions.map .variableDefinition) =
      { rule with operations := latest.defineAll definitions :: earlier } := by
  induction definitions generalizing rule latest with
  | nil =>
    obtain ⟨operations, fragments, owner⟩ := rule
    cases h
    rfl
  | cons definition definitions ih =>
    have hvisit : rule.visit (.variableDefinition definition) =
        { rule with operations := latest.defineAll [definition] :: earlier } := by
      rw [VariableUsage.visit, updateOperation, h]
      rfl
    have hoperations : (rule.visit (.variableDefinition definition)).operations =
        latest.defineAll [definition] :: earlier := by
      rw [hvisit]
    have hrest := ih (rule.visit (.variableDefinition definition)) hoperations
    rw [hvisit] at hrest
    rw [List.map_cons, after, List.foldl_cons, hvisit]
    exact hrest

theorem after_operation (o : Operation) :
    rule.after o.visits =
      { rule with operations := o.scope :: rule.operations, owner := .operation } := by
  have hbody := SelectionSet.shows_body o.directives o.set
  rw [Operation.visits, ← List.singleton_append, after_append, after_append,
    after_variableDefinitions _ rfl, after_of_isInner _ hbody.inner, hbody.spreads_eq,
    hbody.uses_eq]
  rfl

theorem after_fragment (f : Fragment) :
    rule.after f.visits =
      { rule with
        fragments := Executable.addScope rule.fragments f
        owner := .fragment f.name.text } := by
  have hbody := SelectionSet.shows_body f.directives f.set
  rw [Fragment.visits, ← List.singleton_append, after_append, after_of_isInner _ hbody.inner,
    hbody.spreads_eq, hbody.uses_eq]
  rfl

structure Learned (before later : VariableUsage) (doc : Executable) : Prop where
  operations : later.operations = (doc.operations.map Operation.scope).reverse ++ before.operations
  fragments : later.fragments = doc.fragments.foldl Executable.addScope before.fragments

/-- Visiting definitions, the rule learns their scopes. -/
theorem learned_definitions (range : ByteRange) (definitions : List Definition) :
    Learned rule (rule.after (definitions.flatMap Definition.visits)) ⟨range, definitions⟩ := by
  induction definitions generalizing rule with
  | nil => exact ⟨rfl, rfl⟩
  | cons definition definitions ih =>
    rw [List.flatMap_cons, after_append]
    have hrest := ih (rule.after definition.visits)
    cases definition with
    | operation o =>
      rw [Definition.visits, after_operation] at hrest ⊢
      exact ⟨by simpa using hrest.operations, by simpa using hrest.fragments⟩
    | fragment f =>
      rw [Definition.visits, after_fragment] at hrest ⊢
      exact ⟨by simpa using hrest.operations, by simpa using hrest.fragments⟩

structure Knows (rule : VariableUsage) (doc : Executable) : Prop where
  operations : rule.operations.reverse = doc.operations.map Operation.scope
  fragments : rule.fragments = doc.fragmentScopes

end VariableUsage

/-! ## Uses -/

namespace Executable

variable {doc : Executable} {name : String} {place : String × ByteRange}

theorem foldl_add (fragments : List Fragment) (scope : VariableScope) :
    fragments.foldl (fun scope f => scope.add f.spreads f.uses) scope =
      scope.add (fragments.flatMap Fragment.spreads) (fragments.flatMap Fragment.uses) := by
  induction fragments generalizing scope with
  | nil => exact (congrFun VariableScope.add_nil scope).symm
  | cons fragment fragments ih =>
    rw [List.foldl_cons, ih, List.flatMap_cons, List.flatMap_cons, ← VariableScope.add_add]
    rfl

/-- The definitions of one name share a scope. -/
theorem get?_fragmentScopes (doc : Executable) (name : String) :
    doc.fragmentScopes.get? name =
      if doc.Defines name then
        some (VariableScope.add
          ((doc.fragments.filter (·.name.text = name)).flatMap Fragment.spreads)
          ((doc.fragments.filter (·.name.text = name)).flatMap Fragment.uses) {})
      else none := by
  rw [← foldl_add]
  exact get?_gather _ (fun (scope : VariableScope) f => scope.add f.spreads f.uses) doc name

/-- What is found in the scope of a name is found in a definition of the name. -/
theorem exists_get?_fragmentScopes {found : VariableScope → Prop} {own : Fragment → Prop}
    (h : ∀ fragments : List Fragment,
      found (.add (fragments.flatMap Fragment.spreads) (fragments.flatMap Fragment.uses) {}) ↔
        ∃ fragment ∈ fragments, own fragment) :
    (∃ scope, doc.fragmentScopes.get? name = some scope ∧ found scope) ↔
      ∃ fragment ∈ doc.fragments, fragment.name.text = name ∧ own fragment := by
  have hnamed := h (doc.fragments.filter (·.name.text = name))
  simp only [List.mem_filter, decide_eq_true_eq, and_assoc] at hnamed
  rw [← hnamed, get?_fragmentScopes]
  constructor
  · rintro ⟨scope, hscope, hfound⟩
    split at hscope
    · cases hscope
      exact hfound
    · cases hscope
  · intro hfound
    obtain ⟨fragment, hfragment, hname, -⟩ := hnamed.1 hfound
    exact ⟨_, if_pos ⟨fragment, hfragment, hname⟩, hfound⟩

theorem exists_used_fragmentScopes :
    (∃ scope, doc.fragmentScopes.get? name = some scope ∧ place ∈ scope.used) ↔
      ∃ fragment ∈ doc.fragments, fragment.name.text = name ∧
        place ∈ fragment.uses.map Variable.place := by
  apply exists_get?_fragmentScopes
  intro fragments
  simp [List.map_flatMap]

/-- Along the spreads of scopes the rule is led where the document spreads. -/
theorem leads_fragmentScopes (doc : Executable) :
    (doc.fragmentScopes.mapValues (·.spreads)).Leads = doc.Spreads := by
  funext owner target
  have hspreads : (∃ scope, doc.fragmentScopes.get? owner = some scope ∧ target ∈ scope.spreads) ↔
      ∃ fragment ∈ doc.fragments, fragment.name.text = owner ∧
        target ∈ fragment.spreads.map (·.text) := by
    apply exists_get?_fragmentScopes
    intro fragments
    simp [List.map_flatMap]
  rw [eq_iff_iff, ByName.Leads, ByName.get?_mapValues, Spreads]
  simp only [Option.map_eq_some_iff, exists_exists_and_eq_and, hspreads, List.mem_map,
    mem_occurrences]
  constructor
  · rintro ⟨fragment, hfragment, howner, spread, hspread, htarget⟩
    exact ⟨(owner, spread), ⟨fragment, hfragment, howner, hspread⟩, rfl, htarget⟩
  · rintro ⟨occurrence, ⟨fragment, hfragment, howner, hspread⟩, rfl, htarget⟩
    exact ⟨fragment, hfragment, howner, occurrence.2, hspread, htarget⟩

end Executable

theorem VariableUsage.allUses_eq (rule : VariableUsage) (scope : VariableScope) :
    rule.allUses scope =
      scope.used ++ ((rule.fragments.mapValues (·.spreads)).reach scope.spreads).flatMap
        fun name => ((rule.fragments.get? name).map (·.used)).getD [] := rfl

/-- The rule goes by the uses of the document. -/
theorem VariableUsage.Knows.mem_allUses {rule : VariableUsage} {doc : Executable}
    (h : rule.Knows doc) (hdistinct : doc.Distinct) {operation : Operation}
    (hoperation : operation ∈ doc.operations) {place : String × ByteRange} :
    place ∈ rule.allUses operation.scope.scope ↔
      ∃ target, doc.Uses operation target ∧ target.place = place := by
  -- The scope lacks what stands in variable definitions, but that is constant.
  have hown : operation.scope.scope.used = operation.uses.map Variable.place := by
    rw [Operation.uses_of_constants (hdistinct.constants operation hoperation)]
    rfl
  have hreach (name : String) :
      name ∈ (rule.fragments.mapValues (·.spreads)).reach operation.scope.scope.spreads ↔
        doc.Reaches operation name := by
    rw [ByName.mem_reach, h.fragments, doc.leads_fragmentScopes, Executable.Reaches]
    simp [Operation.scope]
  have hused (name : String) :
      place ∈ ((rule.fragments.get? name).map (·.used)).getD [] ↔
        ∃ fragment ∈ doc.fragments, fragment.name.text = name ∧
          place ∈ fragment.uses.map Variable.place := by
    rw [← Executable.exists_used_fragmentScopes, h.fragments]
    cases doc.fragmentScopes.get? name <;> simp
  rw [allUses_eq, hown, List.mem_append, List.mem_flatMap]
  simp only [hreach, hused, Executable.Uses, List.mem_map]
  constructor
  · rintro (⟨target, htarget, hplace⟩ |
      ⟨_, hpath, fragment, hfragment, rfl, target, htarget, hplace⟩)
    · exact ⟨target, .inl htarget, hplace⟩
    · exact ⟨target, .inr ⟨fragment, hfragment, hpath, htarget⟩, hplace⟩
  · rintro ⟨target, htarget | ⟨fragment, hfragment, hpath, htarget⟩, hplace⟩
    · exact .inl ⟨target, htarget, hplace⟩
    · exact .inr ⟨_, hpath, fragment, hfragment, rfl, target, htarget, hplace⟩

/-- At the end the rule reports what it finds knowing the whole document. -/
theorem Document.report_variableUsage (document : Document) :
    ∃ rule : VariableUsage, rule.Knows document.executable ∧
      document.report .variableUsage = rule.leave := by
  rw [Document.report]
  generalize document.executable = doc
  have hlearned := VariableUsage.learned_definitions {} doc.range doc.definitions
  refine ⟨_, ⟨?_, hlearned.fragments⟩, ?_⟩
  · rw [hlearned.operations, List.reverse_append, List.reverse_reverse]
    rfl
  · rw [Rule.fresh, VariableUsage.reports_eq, doc.visits_eq]
    rfl

end GuardedQuery
