import GuardedQuery.Proofs.Relocation.Executable
import GuardedQuery.Proofs.Validation.Names
import GuardedQuery.Validation.Rule
import Mathlib.Data.List.Basic

/-! # Rules over moved documents

A rule compares names, and places only with each other.  Shown a moved document it knows
the same, moved, and finds the same at the places moved to.

- `Finding.move`: the same finding elsewhere.
- `Rule.visit_relocate`, `Rule.leave_relocate`: rules over moved visits.
-/

namespace GuardedQuery

/-! ## Findings -/

namespace Finding

def move (places : ByteRange → ByteRange) (finding : Finding) : Finding :=
  { finding with range := places finding.range }

variable (places : ByteRange → ByteRange) (finding : Finding)

@[simp] theorem kind_move : (finding.move places).kind = finding.kind := rfl

@[simp] theorem message_move : (finding.move places).message = finding.message := rfl

@[simp] theorem range_move : (finding.move places).range = places finding.range := rfl

end Finding

/-! ## Places of tokens -/

namespace Relocation

def carry (r : Relocation) (range : ByteRange) : ByteRange :=
  ⟨r.start range.start, r.start range.start + (range.stop - range.start)⟩

end Relocation

variable {r : Relocation}

@[simp] theorem Token.range_relocate (token : Token) :
    (token.relocate r).range = r.carry token.range := by
  simp [range, relocate, Relocation.carry, stop]

/-! ## Operation names -/

theorem Executable.operations_of_definitions {doc moved : Executable}
    (h : moved.definitions = doc.definitions.map (Definition.relocate r)) :
    moved.operations = doc.operations.map (Operation.relocate r) := by
  rw [operations, operations, h, List.filterMap_map, List.map_filterMap]
  refine congrArg (List.filterMap · _) (funext fun definition => ?_)
  cases definition <;> rfl

theorem Executable.fragments_of_definitions {doc moved : Executable}
    (h : moved.definitions = doc.definitions.map (Definition.relocate r)) :
    moved.fragments = doc.fragments.map (Fragment.relocate r) := by
  rw [fragments, fragments, h, List.filterMap_map, List.map_filterMap]
  refine congrArg (List.filterMap · _) (funext fun definition => ?_)
  cases definition <;> rfl

namespace OperationNames

theorem visit_relocate (rule : OperationNames) (whole : ByteRange) (visit : Visit) :
    rule.visit (visit.relocate r whole) =
      ((rule.visit visit).1, (rule.visit visit).2.map (Finding.move r.carry)) := by
  cases visit with
  | document doc =>
    have hmoved : (Executable.mk whole (doc.definitions.map (Definition.relocate r))).operations =
        doc.operations.map (Operation.relocate r) := Executable.operations_of_definitions rfl
    simp [Visit.relocate, OperationNames.visit, hmoved]
  | operation o =>
    cases hname : o.name with
    | none =>
      simp only [Visit.relocate, OperationNames.visit, judge, Operation.relocate, hname,
        Option.map_none, Token.range_relocate]
      split <;> rfl
    | some name =>
      simp only [Visit.relocate, OperationNames.visit, judge, Operation.relocate, hname,
        Option.map_some, Token.text_relocate, Token.range_relocate]
      split <;> rfl
  | _ => rfl

end OperationNames

/-! ## Fragment usage -/

section moved

variable (places : ByteRange → ByteRange)

def moveNamed (named : String × ByteRange) : String × ByteRange :=
  (named.1, places named.2)

namespace SpreadGraph

def move (graph : SpreadGraph) : SpreadGraph :=
  graph.mapValues (·.map (moveNamed places))

namespace Search

def move (search : Search) : Search :=
  { search with found := search.found.map (Finding.move places) }

end Search

theorem targets_move (graph : SpreadGraph) : (move places graph).targets = graph.targets := by
  simp [targets, move, ByName.mapValues, moveNamed, Function.comp_def]

theorem follow_cons (graph : SpreadGraph) (path : List String) (search : Search)
    (target : String) (range : ByteRange) (rest : List (String × ByteRange)) :
    follow graph path search ((target, range) :: rest) =
      if target ∈ path then
        follow graph path { search with found := cycle path target range :: search.found } rest
      else if target ∈ search.done then follow graph path search rest
      else
        match graph.get? target with
        | none => follow graph path (search.finish target) rest
        | some spreads =>
          follow graph path ((follow graph (target :: path) search spreads).finish target) rest := by
  rw [follow]
  split
  · rfl
  · split
    · rfl
    · split
      · next h => rw [h]
      · next h => rw [h]

/-- Moved spreads close moved cycles. -/
theorem follow_move (graph : SpreadGraph) (path : List String) (search : Search)
    (spreads : List (String × ByteRange)) :
    follow (move places graph) path (search.move places) (spreads.map (moveNamed places)) =
      (follow graph path search spreads).move places := by
  -- Names decide which case it is, so the moved search always is in the same one.
  induction path, search, spreads using follow.induct graph with
  | case1 => simp [follow]
  | case2 path search target range rest hcycle ih =>
    simp only [List.map_cons, moveNamed, follow_cons, if_pos hcycle, ← ih]
    rfl
  | case3 path search target range rest hnew hdone ih =>
    have hmoved : target ∈ (search.move places).done := hdone
    simp only [List.map_cons, moveNamed, follow_cons, if_neg hnew, if_pos hdone, if_pos hmoved, ih]
  | case4 path search target range rest hnew hdone hknown ih =>
    have hmoved : target ∉ (search.move places).done := hdone
    have hgraph : (move places graph).get? target = none := by
      rw [move, ByName.get?_mapValues, hknown, Option.map_none]
    simp only [List.map_cons, moveNamed, follow_cons, if_neg hnew, if_neg hdone, if_neg hmoved,
      hknown, hgraph, ← ih]
    rfl
  | case5 path search target range rest hnew hdone spreads hknown inner ihinner ih =>
    have hmoved : target ∉ (search.move places).done := hdone
    have hgraph : (move places graph).get? target = some (spreads.map (moveNamed places)) := by
      rw [move, ByName.get?_mapValues, hknown, Option.map_some]
    simp only [List.map_cons, moveNamed, follow_cons, if_neg hnew, if_neg hdone, if_neg hmoved,
      hknown, hgraph, ihinner]
    exact ih

theorem cycles_move (graph : SpreadGraph) :
    (move places graph).cycles = graph.cycles.map (Finding.move places) := by
  have hentries : (move places graph).entries =
      graph.entries.map fun entry => (entry.1, entry.2.map (moveNamed places)) := rfl
  rw [cycles, cycles, hentries, List.foldl_map, List.map_reverse]
  refine congrArg (fun search : Search => search.found.reverse) (?_ : _ = Search.move places _)
  change List.foldl _ (Search.move places {}) _ = _
  refine List.foldl_hom (Search.move places) fun search entry => ?_
  by_cases hdone : entry.1 ∈ search.done
  · have hmoved : entry.1 ∈ (search.move places).done := hdone
    simp only [if_pos hdone, if_pos hmoved]
  · have hmoved : entry.1 ∉ (search.move places).done := hdone
    simp only [if_neg hdone, if_neg hmoved, follow_move]
    rfl

end SpreadGraph

namespace FragmentUsage

def move (rule : FragmentUsage) : FragmentUsage :=
  { rule with defined := rule.defined.mapValues places, graph := rule.graph.move places }

theorem leave_move (rule : FragmentUsage) :
    (rule.move places).leave = rule.leave.map (Finding.move places) := by
  have hunused : (rule.move places).unused = rule.unused.map (Finding.move places) := by
    simp only [unused, move, SpreadGraph.targets_move, ByName.mapValues, List.filter_map,
      List.map_map]
    rfl
  rw [leave, leave, hunused, List.map_append]
  exact congrArg _ (SpreadGraph.cycles_move places rule.graph)

end FragmentUsage

end moved

namespace FragmentUsage

theorem define_move (rule : FragmentUsage) {doc moved : Executable}
    (h : moved.definitions = doc.definitions.map (Definition.relocate r)) :
    (rule.move r.carry).define moved = (rule.define doc).move r.carry := by
  have hfold : (doc.fragments.map (Fragment.relocate r)).foldl
        (fun defined fragment => defined.insertNew fragment.name.text fragment.name.range)
        (rule.defined.mapValues r.carry) =
      (doc.fragments.foldl
        (fun defined fragment => defined.insertNew fragment.name.text fragment.name.range)
        rule.defined).mapValues r.carry := by
    rw [List.foldl_map]
    refine List.foldl_hom (ByName.mapValues r.carry) fun defined fragment => ?_
    rw [← ByName.insertNew_mapValues, ← Token.range_relocate]
    rfl
  simp only [define, move, Executable.fragments_of_definitions h, hfold]

theorem spread_move (rule : FragmentUsage) (name : Token) :
    (rule.move r.carry).spread (name.relocate r) =
      ((rule.spread name).1.move r.carry, (rule.spread name).2.map (Finding.move r.carry)) := by
  obtain ⟨defined, fromOperations, graph, owner⟩ := rule
  have hfound : (if (defined.mapValues r.carry).contains name.text then ([] : List Finding) else
        [{ kind := .undefinedFragment, range := r.carry name.range,
           message := "undefined fragment '" ++ name.text ++ "'" }]) =
      (if defined.contains name.text then ([] : List Finding) else
        [{ kind := .undefinedFragment, range := name.range,
           message := "undefined fragment '" ++ name.text ++ "'" }]).map (Finding.move r.carry) := by
    rw [ByName.contains_mapValues]
    split <;> rfl
  rw [spread, spread, move, Token.text_relocate, Token.range_relocate, Prod.mk.injEq]
  refine ⟨?_, hfound⟩
  cases owner with
  | nobody => rfl
  | operation => rfl
  | fragment owner =>
    have hgraph : (graph.move r.carry).update owner (· ++ [(name.text, r.carry name.range)]) =
        SpreadGraph.move r.carry (graph.update owner (· ++ [(name.text, name.range)])) :=
      ByName.update_mapValues (fun spreads => by simp [moveNamed]) graph owner
    simp only [move, hgraph]

theorem visit_relocate (rule : FragmentUsage) (whole : ByteRange) (visit : Visit) :
    (rule.move r.carry).visit (visit.relocate r whole) =
      ((rule.visit visit).1.move r.carry, (rule.visit visit).2.map (Finding.move r.carry)) := by
  cases visit with
  | document doc =>
    rw [Visit.relocate, FragmentUsage.visit, FragmentUsage.visit, rule.define_move rfl]
    rfl
  | fragment f =>
    have hgraph : (rule.graph.move r.carry).insertNew f.name.text [] =
        SpreadGraph.move r.carry (rule.graph.insertNew f.name.text []) :=
      ByName.insertNew_mapValues rule.graph f.name.text []
    simp only [Visit.relocate, FragmentUsage.visit, Fragment.relocate, Token.text_relocate, move,
      hgraph, List.map_nil]
  | spread s => exact rule.spread_move s.name
  | _ => rfl

end FragmentUsage

/-! ## Variable usage -/

section moved

variable (places : ByteRange → ByteRange)

namespace VariableScope

def move (scope : VariableScope) : VariableScope :=
  { scope with used := scope.used.map (moveNamed places) }

end VariableScope

namespace OperationScope

def move (operation : OperationScope) : OperationScope :=
  { operation with
    defined := operation.defined.mapValues places
    scope := operation.scope.move places }

end OperationScope

namespace VariableUsage

def move (rule : VariableUsage) : VariableUsage :=
  { rule with
    operations := rule.operations.map (OperationScope.move places)
    fragments := rule.fragments.mapValues (VariableScope.move places) }

theorem updateOperation_move {change change' : OperationScope → OperationScope}
    (h : ∀ latest, change' (latest.move places) = (change latest).move places)
    (rule : VariableUsage) :
    (rule.move places).updateOperation change' = (rule.updateOperation change).move places := by
  obtain ⟨operations, fragments, owner⟩ := rule
  cases operations with
  | nil => rfl
  | cons latest earlier => simp only [updateOperation, move, List.map_cons, h]

theorem updateScope_move {change change' : VariableScope → VariableScope}
    (h : ∀ scope, change' (scope.move places) = (change scope).move places)
    (rule : VariableUsage) :
    (rule.move places).updateScope change' = (rule.updateScope change).move places := by
  obtain ⟨operations, fragments, owner⟩ := rule
  cases owner with
  | nobody => rfl
  | operation =>
    refine updateOperation_move places (fun latest => ?_) ⟨operations, fragments, .operation⟩
    simp only [OperationScope.move, h]
  | fragment name => simp only [updateScope, move, ByName.update_mapValues h]

theorem allUses_move (rule : VariableUsage) (scope : VariableScope) :
    (rule.move places).allUses (scope.move places) =
      (rule.allUses scope).map (moveNamed places) := by
  have huses (name : String) :
      (((rule.fragments.mapValues (VariableScope.move places)).get? name).map (·.used)).getD [] =
        (((rule.fragments.get? name).map (·.used)).getD []).map (moveNamed places) := by
    rw [ByName.get?_mapValues]
    cases rule.fragments.get? name <;> rfl
  simp only [allUses, move, ByName.entries_mapValues, huses, List.map_map, List.map_append,
    List.map_flatMap]
  rfl

variable {places}

theorem moveNamed_injective (h : Function.Injective places) :
    Function.Injective (moveNamed places) := by
  rintro ⟨name, range⟩ ⟨name', range'⟩ heq
  obtain ⟨hname, hrange⟩ := Prod.mk.inj heq
  rw [Prod.mk.injEq]
  exact ⟨hname, h hrange⟩

/-- Places that are kept apart leave the same uses distinct. -/
theorem distinct_map (h : Function.Injective places) (uses : List (String × ByteRange)) :
    distinct (uses.map (moveNamed places)) = (distinct uses).map (moveNamed places) := by
  have hcontains (seen : List (String × ByteRange)) (use : String × ByteRange) :
      (seen.map (moveNamed places)).contains (moveNamed places use) = seen.contains use := by
    rw [Bool.eq_iff_iff, List.contains_iff_mem, List.contains_iff_mem]
    exact List.mem_map_of_injective (moveNamed_injective h)
  have hfold (seen : List (String × ByteRange)) :
      (uses.map (moveNamed places)).foldl
        (fun seen use => if seen.contains use then seen else use :: seen)
        (seen.map (moveNamed places)) =
      (uses.foldl (fun seen use => if seen.contains use then seen else use :: seen) seen).map
        (moveNamed places) := by
    rw [List.foldl_map]
    refine List.foldl_hom (List.map (moveNamed places)) fun seen use => ?_
    rw [hcontains]
    split <;> rfl
  exact (congrArg List.reverse (hfold [])).trans List.map_reverse.symm

theorem judge_move (h : Function.Injective places) (rule : VariableUsage)
    (operation : OperationScope) :
    (rule.move places).judge (operation.move places) =
      (rule.judge operation).map (Finding.move places) := by
  have huses := allUses_move places rule operation.scope
  simp only [judge, OperationScope.move, huses, ByName.contains_mapValues,
    ByName.entries_mapValues, List.filter_map, List.any_map, distinct_map h, List.map_append,
    List.map_map]
  rfl

theorem leave_move (h : Function.Injective places) (rule : VariableUsage) :
    (rule.move places).leave = rule.leave.map (Finding.move places) := by
  rw [leave, leave, List.map_flatMap, move, ← List.map_reverse, List.flatMap_map]
  exact congrArg (List.flatMap · _) (funext (judge_move h rule))

end VariableUsage

end moved

namespace VariableUsage

theorem visit_relocate (rule : VariableUsage) (whole : ByteRange) (visit : Visit) :
    (rule.move r.range).visit (visit.relocate r whole) = (rule.visit visit).move r.range := by
  cases visit with
  | operation o =>
    simp only [Visit.relocate, Operation.relocate, VariableUsage.visit, move, Option.map_map]
    rfl
  | fragment f =>
    have hfragments : (rule.fragments.mapValues (VariableScope.move r.range)).insertNew f.name.text
          {} =
        (rule.fragments.insertNew f.name.text {}).mapValues (VariableScope.move r.range) :=
      ByName.insertNew_mapValues rule.fragments f.name.text {}
    simp only [Visit.relocate, Fragment.relocate, VariableUsage.visit, move, Token.text_relocate,
      hfragments]
  | variableDefinition d =>
    refine updateOperation_move r.range (fun latest => ?_) rule
    simp only [OperationScope.move, VariableDefinition.relocate, Variable.relocate,
      Token.text_relocate, ByName.insertNew_mapValues]
  | spread s =>
    rw [Visit.relocate, VariableUsage.visit, VariableUsage.visit]
    refine updateScope_move r.range (fun scope => ?_) rule
    rfl
  | use target =>
    rw [Visit.relocate, VariableUsage.visit, VariableUsage.visit]
    refine updateScope_move r.range (fun scope => ?_) rule
    simp [VariableScope.move, VariableScope.use, Variable.relocate, moveNamed]
  | _ => rfl

end VariableUsage

/-! ## All rules -/

namespace Rule

def relocate (r : Relocation) : Rule → Rule
  | operationNames state => operationNames state
  | fragmentUsage state => fragmentUsage (state.move r.carry)
  | variableUsage state => variableUsage (state.move r.range)

theorem relocate_fresh (name : RuleName) : (fresh name).relocate r = fresh name := by
  cases name <;> rfl

def places (r : Relocation) : Rule → ByteRange → ByteRange
  | operationNames _ | fragmentUsage _ => r.carry
  | variableUsage _ => r.range

/-- A rule that is shown moved visits knows what it would know, moved. -/
theorem visit_relocate (rule : Rule) (whole : ByteRange) (visit : Visit) :
    (rule.relocate r).visit (visit.relocate r whole) =
      ((rule.visit visit).1.relocate r, (rule.visit visit).2.map (Finding.move (rule.places r))) := by
  cases rule with
  | operationNames state =>
    simp only [Rule.visit, relocate, places, state.visit_relocate]
  | fragmentUsage state =>
    simp only [Rule.visit, relocate, places, state.visit_relocate]
  | variableUsage state =>
    simp only [Rule.visit, relocate, state.visit_relocate, List.map_nil]

theorem leave_relocate (h : r.Ordered) (rule : Rule) :
    (rule.relocate r).leave = rule.leave.map (Finding.move (rule.places r)) := by
  cases rule with
  | operationNames state => rfl
  | fragmentUsage state => exact state.leave_move r.carry
  | variableUsage state => exact state.leave_move h.range_injective

end Rule

end GuardedQuery
