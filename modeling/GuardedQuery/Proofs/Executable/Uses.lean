import GuardedQuery.Proofs.Executable.Visiting
import Mathlib.Logic.Relation

/-! # Spreads and uses

What a definition spreads and which variables it uses, read off the document part by part
without a walk, and what can be reached along spreads.

- `Selection.nested`: a selection with all that stand inside it.
- `SelectionSet.spreads`, `SelectionSet.uses` and the like: in order, at any depth.
- `Executable.Spreads`, `Executable.Reaches`, `Executable.Uses`: along fragments.
- `SelectionSet.shows_body`: a walk comes across the same spreads and uses.
-/

namespace GuardedQuery

/-! ## Variables in values -/

mutual

def Value.uses : Value → List Variable
  | .reference target => [target]
  | .scalar .. => []
  | .list _ items => Value.allUses items
  | .object _ fields => ObjectField.allUses fields

def Value.allUses : List Value → List Variable
  | [] => []
  | value :: rest => value.uses ++ Value.allUses rest

def ObjectField.uses : ObjectField → List Variable
  | .mk _ value => value.uses

def ObjectField.allUses : List ObjectField → List Variable
  | [] => []
  | field :: rest => field.uses ++ ObjectField.allUses rest

end

def Argument.uses (argument : Argument) : List Variable :=
  argument.value.uses

def Argument.allUses (arguments : Option (List Argument)) : List Variable :=
  (arguments.getD []).flatMap Argument.uses

def Directive.uses (directive : Directive) : List Variable :=
  Argument.allUses directive.arguments

def Directive.allUses (directives : Option (List Directive)) : List Variable :=
  (directives.getD []).flatMap Directive.uses

/-! ## Selections -/

mutual

def Selection.nested : Selection → List Selection
  | .field f none => [.field f none]
  | .field f (some set) => .field f (some set) :: set.nested
  | .spread s => [.spread s]
  | .inline i set => .inline i set :: set.nested

def SelectionSet.nested : SelectionSet → List Selection
  | .mk _ selections => Selection.allNested selections

def Selection.allNested : List Selection → List Selection
  | [] => []
  | selection :: rest => selection.nested ++ Selection.allNested rest

end

def Selection.spread? : Selection → Option Token
  | .spread s => some s.name
  | _ => none

def Selection.ownUses : Selection → List Variable
  | .field f _ => Argument.allUses f.arguments ++ Directive.allUses f.directives
  | .spread s => Directive.allUses s.directives
  | .inline i _ => Directive.allUses i.directives

namespace SelectionSet

def spreads (set : SelectionSet) : List Token :=
  set.nested.filterMap Selection.spread?

def uses (set : SelectionSet) : List Variable :=
  set.nested.flatMap Selection.ownUses

end SelectionSet

/-! ## Definitions -/

/-- The variables in the default and the directives of a definition.  The variable that is
defined is not used. -/
def VariableDefinition.uses (definition : VariableDefinition) : List Variable :=
  definition.default.toList.flatMap Value.uses ++
    Directive.allUses definition.directives

namespace Operation

def spreads (operation : Operation) : List Token :=
  operation.set.spreads

def definedVariables (operation : Operation) : List VariableDefinition :=
  operation.variableDefinitions.getD []

def bodyUses (operation : Operation) : List Variable :=
  Directive.allUses operation.directives ++ operation.set.uses

def uses (operation : Operation) : List Variable :=
  operation.definedVariables.flatMap VariableDefinition.uses ++ operation.bodyUses

theorem uses_of_constants {operation : Operation}
    (h : ∀ definition ∈ operation.definedVariables, definition.uses = []) :
    operation.uses = operation.bodyUses := by
  rw [uses, List.flatMap_eq_nil_iff.2 h, List.nil_append]

end Operation

namespace Fragment

def spreads (fragment : Fragment) : List Token :=
  fragment.set.spreads

def uses (fragment : Fragment) : List Variable :=
  Directive.allUses fragment.directives ++ fragment.set.uses

end Fragment

namespace Definition

def spreads : Definition → List Token
  | .operation o => o.spreads
  | .fragment f => f.spreads

def uses : Definition → List Variable
  | .operation o => o.uses
  | .fragment f => f.uses

end Definition

namespace Executable

section cons

variable (range : ByteRange) (o : Operation) (f : Fragment) (definitions : List Definition)

@[simp] theorem operations_cons_operation :
    operations ⟨range, .operation o :: definitions⟩ = o :: operations ⟨range, definitions⟩ := rfl

@[simp] theorem operations_cons_fragment :
    operations ⟨range, .fragment f :: definitions⟩ = operations ⟨range, definitions⟩ := rfl

@[simp] theorem fragments_cons_operation :
    fragments ⟨range, .operation o :: definitions⟩ = fragments ⟨range, definitions⟩ := rfl

@[simp] theorem fragments_cons_fragment :
    fragments ⟨range, .fragment f :: definitions⟩ = f :: fragments ⟨range, definitions⟩ := rfl

end cons

def spreads (doc : Executable) : List Token :=
  doc.definitions.flatMap Definition.spreads

def uses (doc : Executable) : List Variable :=
  doc.definitions.flatMap Definition.uses

/-! ## Along fragments -/

def Defines (doc : Executable) (name : String) : Prop :=
  ∃ fragment ∈ doc.fragments, fragment.name.text = name

instance (doc : Executable) (name : String) : Decidable (doc.Defines name) :=
  inferInstanceAs (Decidable (∃ fragment ∈ doc.fragments, fragment.name.text = name))

def occurrences (doc : Executable) : List (String × Token) :=
  doc.fragments.flatMap fun fragment => fragment.spreads.map (fragment.name.text, ·)

def Spreads (doc : Executable) (owner target : String) : Prop :=
  ∃ occurrence ∈ doc.occurrences, occurrence.1 = owner ∧ occurrence.2.text = target

def Reaches (doc : Executable) (operation : Operation) (name : String) : Prop :=
  ∃ spread ∈ operation.spreads, Relation.ReflTransGen doc.Spreads spread.text name

def Uses (doc : Executable) (operation : Operation) (target : Variable) : Prop :=
  target ∈ operation.uses ∨
    ∃ fragment ∈ doc.fragments, doc.Reaches operation fragment.name.text ∧
      target ∈ fragment.uses

end Executable

/-! ## What a walk comes across -/

namespace Visit

def spread? : Visit → Option Token
  | spread s => some s.name
  | _ => none

def use? : Visit → Option Variable
  | use target => some target
  | _ => none

def isInner : Visit → Bool
  | document _ | operation _ | fragment _ | variableDefinition _ => false
  | _ => true

end Visit

structure Visit.Shows (visits : List Visit) (spreads : List Token) (uses : List Variable) :
    Prop where
  spreads_eq : visits.filterMap spread? = spreads
  uses_eq : visits.filterMap use? = uses
  inner : ∀ visit ∈ visits, visit.isInner

namespace Visit.Shows

variable {visits more : List Visit} {spreads names : List Token} {uses targets : List Variable}

theorem nil : Shows [] [] [] where
  spreads_eq := rfl
  uses_eq := rfl
  inner _ hvisit := absurd hvisit List.not_mem_nil

theorem append (h : Shows visits spreads uses) (hmore : Shows more names targets) :
    Shows (visits ++ more) (spreads ++ names) (uses ++ targets) where
  spreads_eq := by rw [List.filterMap_append, h.spreads_eq, hmore.spreads_eq]
  uses_eq := by rw [List.filterMap_append, h.uses_eq, hmore.uses_eq]
  inner := List.forall_mem_append.2 ⟨h.inner, hmore.inner⟩

theorem cons (visit : Visit) (hinner : visit.isInner) (h : Shows visits spreads uses) :
    Shows (visit :: visits) (visit.spread?.toList ++ spreads) (visit.use?.toList ++ uses) where
  spreads_eq := by cases hspread : visit.spread? <;> simp [hspread, h.spreads_eq]
  uses_eq := by cases huse : visit.use? <;> simp [huse, h.uses_eq]
  inner := List.forall_mem_cons.2 ⟨hinner, h.inner⟩

theorem flatMap {α : Type} {own : α → List Visit} {spreadsOf : α → List Token}
    {usesOf : α → List Variable} {parts : List α}
    (h : ∀ part ∈ parts, Shows (own part) (spreadsOf part) (usesOf part)) :
    Shows (parts.flatMap own) (parts.flatMap spreadsOf) (parts.flatMap usesOf) := by
  induction parts with
  | nil => exact nil
  | cons part parts ih =>
    rw [List.forall_mem_cons] at h
    exact h.1.append (ih h.2)

/-- Parts that spread nothing. -/
theorem flatMap_uses {α : Type} {own : α → List Visit} {usesOf : α → List Variable}
    (h : ∀ part, Shows (own part) [] (usesOf part)) (parts : List α) :
    Shows (parts.flatMap own) [] (parts.flatMap usesOf) := by
  have hnone : parts.flatMap (fun _ => ([] : List Token)) = [] :=
    List.flatMap_eq_nil_iff.2 fun _ _ => rfl
  rw [← hnone]
  exact flatMap fun part _ => h part

end Visit.Shows

open Visit (Shows)

mutual

theorem Value.shows_visits : ∀ value : Value, Shows value.visits [] value.uses
  | .reference _ => .cons _ rfl (.cons _ rfl .nil)
  | .scalar .. => .cons _ rfl .nil
  | .list range items => by
    rw [Value.visits_list]
    exact .cons _ rfl (Value.shows_allVisits items)
  | .object range fields => by
    rw [Value.visits_object]
    exact .cons _ rfl (ObjectField.shows_allVisits fields)

theorem Value.shows_allVisits : ∀ values : List Value,
    Shows (values.flatMap Value.visits) [] (Value.allUses values)
  | [] => .nil
  | value :: rest => (Value.shows_visits value).append (Value.shows_allVisits rest)

theorem ObjectField.shows_visits :
    ∀ field : ObjectField, Shows field.visits [] field.uses
  | .mk _ value => Value.shows_visits value

theorem ObjectField.shows_allVisits : ∀ fields : List ObjectField,
    Shows (fields.flatMap ObjectField.visits) [] (ObjectField.allUses fields)
  | [] => .nil
  | field :: rest => (ObjectField.shows_visits field).append (ObjectField.shows_allVisits rest)

end

theorem Argument.shows_allVisits (arguments : Option (List Argument)) :
    Shows (allVisits arguments) [] (allUses arguments) :=
  Shows.flatMap_uses (fun argument : Argument => argument.value.shows_visits) _

theorem Directive.shows_allVisits (directives : Option (List Directive)) :
    Shows (allVisits directives) [] (allUses directives) :=
  Shows.flatMap_uses (fun directive : Directive => Argument.shows_allVisits directive.arguments) _

def Visit.ShowsSelections (visits : List Visit) (selections : List Selection) : Prop :=
  Shows visits (selections.filterMap Selection.spread?)
    (selections.flatMap Selection.ownUses)

theorem Visit.ShowsSelections.append {visits more : List Visit} {selections others : List Selection}
    (h : ShowsSelections visits selections) (hmore : ShowsSelections more others) :
    ShowsSelections (visits ++ more) (selections ++ others) := by
  rw [ShowsSelections, List.filterMap_append, List.flatMap_append]
  exact Shows.append h hmore

theorem Field.shows_visits (f : Field) (set : Option SelectionSet) :
    Visit.ShowsSelections f.visits [.field f set] := by
  have harguments := Argument.shows_allVisits f.arguments
  have hdirectives := Directive.shows_allVisits f.directives
  have hown := Shows.cons (.field f) rfl (harguments.append hdirectives)
  simpa [Visit.ShowsSelections, List.filterMap_cons, Field.visits, Selection.spread?,
    Selection.ownUses, Visit.spread?, Visit.use?]
    using hown

theorem FragmentSpread.shows_visits (s : FragmentSpread) :
    Visit.ShowsSelections (.spread s :: Directive.allVisits s.directives) [.spread s] := by
  have hown := Shows.cons (.spread s) rfl (Directive.shows_allVisits s.directives)
  simpa [Visit.ShowsSelections, List.filterMap_cons, Selection.spread?,
    Selection.ownUses, Visit.spread?, Visit.use?] using hown

theorem InlineFragment.shows_visits (i : InlineFragment) (set : SelectionSet) :
    Visit.ShowsSelections (.inline i :: Directive.allVisits i.directives) [.inline i set] := by
  have hown := Shows.cons (.inline i) rfl (Directive.shows_allVisits i.directives)
  simpa [Visit.ShowsSelections, List.filterMap_cons, Selection.spread?,
    Selection.ownUses, Visit.spread?, Visit.use?] using hown

mutual

theorem Selection.shows_visits :
    ∀ selection : Selection, Visit.ShowsSelections selection.visits selection.nested
  | .field f none => by
    rw [Selection.visits_field, Selection.nested]
    simpa using f.shows_visits none
  | .field f (some set) => by
    rw [Selection.visits_field, Selection.nested]
    simpa using (f.shows_visits (some set)).append (SelectionSet.shows_visits set)
  | .spread s => by
    rw [Selection.visits_spread, Selection.nested]
    exact s.shows_visits
  | .inline i set => by
    rw [Selection.visits_inline, Selection.nested]
    exact (i.shows_visits set).append (SelectionSet.shows_visits set)

theorem SelectionSet.shows_visits :
    ∀ set : SelectionSet, Visit.ShowsSelections set.visits set.nested
  | .mk range selections => by
    rw [SelectionSet.visits_mk, SelectionSet.nested]
    exact Shows.cons (.selectionSet range) rfl (Selection.shows_allVisits selections)

theorem Selection.shows_allVisits : ∀ selections : List Selection,
    Visit.ShowsSelections (selections.flatMap Selection.visits) (Selection.allNested selections)
  | [] => Shows.nil
  | selection :: rest => by
    rw [List.flatMap_cons, Selection.allNested]
    exact (Selection.shows_visits selection).append (Selection.shows_allVisits rest)

end

/-- Behind directives the visits of a selection set show its spreads and all variables. -/
theorem SelectionSet.shows_body (directives : Option (List Directive)) (set : SelectionSet) :
    Shows (Directive.allVisits directives ++ set.visits) set.spreads
      (Directive.allUses directives ++ set.uses) :=
  (Directive.shows_allVisits directives).append set.shows_visits

theorem Visit.filterMap_variableDefinitions {α : Type} {choose : Visit → Option α}
    (h : ∀ definition, choose (.variableDefinition definition) = none)
    (definitions : List VariableDefinition) :
    (definitions.map Visit.variableDefinition).filterMap choose = [] := by
  simp [h]

namespace Definition

/-- A walk over a definition comes across its spreads. -/
theorem spreads_visits (definition : Definition) :
    definition.visits.filterMap Visit.spread? = definition.spreads := by
  cases definition with
  | operation o =>
    rw [visits, Operation.visits, List.filterMap_cons_none rfl, List.filterMap_append,
      Visit.filterMap_variableDefinitions fun _ => rfl,
      (SelectionSet.shows_body o.directives o.set).spreads_eq]
    rfl
  | fragment f => exact (SelectionSet.shows_body f.directives f.set).spreads_eq

/-- A walk over a definition comes across its variables, those in variable definitions left
out. -/
theorem uses_visits {definition : Definition}
    (h : ∀ d, .variableDefinition d ∈ definition.visits → d.uses = []) :
    definition.visits.filterMap Visit.use? = definition.uses := by
  cases definition with
  | operation o =>
    have hconstant : ∀ d ∈ o.definedVariables, d.uses = [] := by
      intro d hd
      apply h
      rw [visits, Operation.visits]
      exact .tail _ (List.mem_append_left _ (List.mem_map_of_mem hd))
    rw [visits, Operation.visits, List.filterMap_cons_none rfl, List.filterMap_append,
      Visit.filterMap_variableDefinitions fun _ => rfl,
      (SelectionSet.shows_body o.directives o.set).uses_eq, Definition.uses,
      Operation.uses_of_constants hconstant]
    rfl
  | fragment f => exact (SelectionSet.shows_body f.directives f.set).uses_eq

end Definition

end GuardedQuery
