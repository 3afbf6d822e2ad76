import GuardedQuery.Proofs.Executable.Visiting

/-! # Walking through a document

A visitor is called for a part and then walks on through what the part contains, one
callback calling the next.  Its calls are the visits of the document in order, and the
first call that fails ends the walk from any depth.

- `Executable.walk`: the callbacks of a visitor, each calling the next.
- `Executable.walk_eq_forM`: the calls are the visits in order.
- `Executable.outcome_walk`: a visitor that may fail sees what `traverse` shows it.
- `traverse_logging`, `traverse_logging_of_fault`: what a visitor writes down.
-/

namespace GuardedQuery

/-! ## Callbacks

`note` is called for every part before the walk goes on. -/

section walk

variable {m : Type → Type} [Monad m] (note : Visit → m Unit)

mutual

def Value.walk : Value → m Unit
  | .reference target => do
    note (.value target.range)
    note (.use target)
  | .scalar range _ _ => note (.value range)
  | .list range items => do
    note (.value range)
    Value.walkAll items
  | .object range fields => do
    note (.value range)
    ObjectField.walkAll fields

def Value.walkAll : List Value → m Unit
  | [] => pure ()
  | value :: rest => do
    value.walk
    Value.walkAll rest

def ObjectField.walk : ObjectField → m Unit
  | .mk _ value => value.walk

def ObjectField.walkAll : List ObjectField → m Unit
  | [] => pure ()
  | field :: rest => do
    field.walk
    ObjectField.walkAll rest

end

def Argument.walkAll (arguments : Option (List Argument)) : m Unit :=
  forM (arguments.getD []) fun argument => argument.value.walk note

def Directive.walkAll (directives : Option (List Directive)) : m Unit :=
  forM (directives.getD []) fun directive => Argument.walkAll note directive.arguments

mutual

def Selection.walk : Selection → m Unit
  | .field f none => do
    note (.field f)
    Argument.walkAll note f.arguments
    Directive.walkAll note f.directives
  | .field f (some set) => do
    note (.field f)
    Argument.walkAll note f.arguments
    Directive.walkAll note f.directives
    set.walk
  | .spread s => do
    note (.spread s)
    Directive.walkAll note s.directives
  | .inline i set => do
    note (.inline i)
    Directive.walkAll note i.directives
    set.walk

def SelectionSet.walk : SelectionSet → m Unit
  | .mk range selections => do
    note (.selectionSet range)
    Selection.walkAll selections

def Selection.walkAll : List Selection → m Unit
  | [] => pure ()
  | selection :: rest => do
    selection.walk
    Selection.walkAll rest

end

def Operation.walk (operation : Operation) : m Unit := do
  note (.operation operation)
  forM (operation.variableDefinitions.getD []) fun definition =>
    note (.variableDefinition definition)
  Directive.walkAll note operation.directives
  operation.set.walk note

def Fragment.walk (fragment : Fragment) : m Unit := do
  note (.fragment fragment)
  Directive.walkAll note fragment.directives
  fragment.set.walk note

def Definition.walk : Definition → m Unit
  | .operation o => o.walk note
  | .fragment f => f.walk note

def Executable.walk (doc : Executable) : m Unit := do
  note (.document doc)
  forM doc.definitions (Definition.walk note)

/-! ## The calls of a walk -/

theorem forM_flatMap [LawfulMonad m] {α : Type} (parts : List α) (own : α → List Visit) :
    forM (parts.flatMap own) note = forM parts fun part => forM (own part) note := by
  induction parts with
  | nil => rfl
  | cons part parts ih => simp [ih]

mutual

theorem Value.walk_eq_forM [LawfulMonad m] : ∀ value : Value,
    value.walk note = forM value.visits note
  | .reference _ => by simp [Value.walk]
  | .scalar .. => by simp [Value.walk]
  | .list _ items => by simp [Value.walk, Value.walkAll_eq_forM items]
  | .object _ fields => by simp [Value.walk, ObjectField.walkAll_eq_forM fields]

theorem Value.walkAll_eq_forM [LawfulMonad m] : ∀ values : List Value,
    Value.walkAll note values = forM (values.flatMap Value.visits) note
  | [] => rfl
  | value :: rest => by
    simp [Value.walkAll, Value.walk_eq_forM value, Value.walkAll_eq_forM rest]

theorem ObjectField.walk_eq_forM [LawfulMonad m] : ∀ field : ObjectField,
    field.walk note = forM field.visits note
  | .mk _ value => Value.walk_eq_forM value

theorem ObjectField.walkAll_eq_forM [LawfulMonad m] : ∀ fields : List ObjectField,
    ObjectField.walkAll note fields = forM (fields.flatMap ObjectField.visits) note
  | [] => rfl
  | field :: rest => by
    simp [ObjectField.walkAll, ObjectField.walk_eq_forM field, ObjectField.walkAll_eq_forM rest]

end

theorem Argument.walkAll_eq_forM [LawfulMonad m] (arguments : Option (List Argument)) :
    walkAll note arguments = forM (allVisits arguments) note := by
  rw [allVisits, forM_flatMap, walkAll]
  exact congrArg _ (funext fun argument => argument.value.walk_eq_forM note)

theorem Directive.walkAll_eq_forM [LawfulMonad m] (directives : Option (List Directive)) :
    walkAll note directives = forM (allVisits directives) note := by
  rw [allVisits, forM_flatMap, walkAll]
  exact congrArg _ (funext fun directive => Argument.walkAll_eq_forM note directive.arguments)

mutual

theorem Selection.walk_eq_forM [LawfulMonad m] : ∀ selection : Selection,
    selection.walk note = forM selection.visits note
  | .field f none => by
    simp [Selection.walk, Field.visits, Argument.walkAll_eq_forM, Directive.walkAll_eq_forM]
  | .field f (some set) => by
    simp [Selection.walk, Field.visits, Argument.walkAll_eq_forM, Directive.walkAll_eq_forM,
      SelectionSet.walk_eq_forM set]
  | .spread s => by simp [Selection.walk, Directive.walkAll_eq_forM]
  | .inline i set => by
    simp [Selection.walk, Directive.walkAll_eq_forM, SelectionSet.walk_eq_forM set]

theorem SelectionSet.walk_eq_forM [LawfulMonad m] : ∀ set : SelectionSet,
    set.walk note = forM set.visits note
  | .mk _ selections => by simp [SelectionSet.walk, Selection.walkAll_eq_forM selections]

theorem Selection.walkAll_eq_forM [LawfulMonad m] : ∀ selections : List Selection,
    Selection.walkAll note selections = forM (selections.flatMap Selection.visits) note
  | [] => rfl
  | selection :: rest => by
    simp [Selection.walkAll, Selection.walk_eq_forM selection, Selection.walkAll_eq_forM rest]

end

theorem Definition.walk_eq_forM [LawfulMonad m] (definition : Definition) :
    definition.walk note = forM definition.visits note := by
  cases definition with
  | operation o =>
    simp [walk, Operation.walk, visits, Operation.visits, Directive.walkAll_eq_forM,
      SelectionSet.walk_eq_forM]
  | fragment f =>
    simp [walk, Fragment.walk, visits, Fragment.visits, Directive.walkAll_eq_forM,
      SelectionSet.walk_eq_forM]

/-- A walk calls the visitor for the visits of the document in order. -/
theorem Executable.walk_eq_forM [LawfulMonad m] (doc : Executable) :
    doc.walk note = forM doc.visits note := by
  have hdefinitions : Definition.walk note = fun definition => forM definition.visits note :=
    funext (Definition.walk_eq_forM note)
  rw [visits_eq, List.forM_cons, forM_flatMap, walk, hdefinitions]

end walk

/-! ## Visitors that may fail -/

section traverse

variable {σ : Type} (visit : σ → Visit → σ × Option Fault)

def call (next : Visit) : EStateM Fault σ Unit := fun state =>
  match visit state next with
  | (state, none) => .ok () state
  | (state, some fault) => .error fault state

def outcome : EStateM.Result Fault σ Unit → σ × Option Fault
  | .ok _ state => (state, none)
  | .error fault state => (state, some fault)

theorem outcome_forM_call (visits : List Visit) (state : σ) :
    outcome ((forM visits (call visit)).run state) = traverse visit state visits := by
  induction visits generalizing state with
  | nil => rfl
  | cons next rest ih =>
    rw [traverse, List.forM_cons, EStateM.run_bind, EStateM.run, call]
    rcases visit state next with ⟨state, _ | fault⟩
    · exact ih state
    · rfl

/-- A visitor that walks on by itself and one that is shown the visits come to the same. -/
theorem Executable.outcome_walk (doc : Executable) (state : σ) :
    outcome ((doc.walk (call visit)).run state) = traverse visit state doc.visits := by
  rw [walk_eq_forM, outcome_forM_call]

end traverse

/-! ## Writing visits down -/

/-- Writes every visit down and then fails if `failing` has a fault for the number of
entries so far. -/
def logging (failing : Nat → Option Fault) (log : List Visit) (next : Visit) :
    List Visit × Option Fault :=
  (log ++ [next], failing (log.length + 1))

section logging

variable {failing : Nat → Option Fault}

theorem traverse_logging_append (log visits rest : List Visit)
    (h : ∀ n, log.length < n → n ≤ log.length + visits.length → failing n = none) :
    traverse (logging failing) log (visits ++ rest) =
      traverse (logging failing) (log ++ visits) rest := by
  induction visits generalizing log with
  | nil => rw [List.nil_append, List.append_nil]
  | cons next visits ih =>
    have hnext : failing (log.length + 1) = none :=
      h _ (Nat.lt_succ_self _) (by rw [List.length_cons]; omega)
    rw [List.cons_append, traverse, logging, hnext]
    simp only
    rw [ih, List.append_assoc]
    · rfl
    · intro n hn hle
      rw [List.length_append, List.length_singleton] at hn hle
      exact h n (by omega) (by rw [List.length_cons]; omega)

/-- A visitor that never fails writes down all visits. -/
theorem traverse_logging (visits : List Visit)
    (h : ∀ n, 0 < n → n ≤ visits.length → failing n = none) :
    traverse (logging failing) [] visits = (visits, none) := by
  have hall := traverse_logging_append [] visits [] (by simpa using h)
  rwa [List.append_nil] at hall

/-- A visitor that fails at entry `n` has written down the first `n` visits, and its fault
is the result. -/
theorem traverse_logging_of_fault {visits : List Visit} {n : Nat} {fault : Fault}
    (hpos : 0 < n) (hle : n ≤ visits.length) (hbefore : ∀ k, 0 < k → k < n → failing k = none)
    (hfault : failing n = some fault) :
    traverse (logging failing) [] visits = (visits.take n, some fault) := by
  obtain ⟨k, rfl⟩ : ∃ k, n = k + 1 := ⟨n - 1, by omega⟩
  have hsplit : visits = visits.take k ++ visits[k] :: visits.drop (k + 1) := by
    rw [List.getElem_cons_drop, List.take_append_drop]
  have hlength : (visits.take k).length = k := List.length_take_of_le (by omega)
  have hreached : traverse (logging failing) [] visits =
      traverse (logging failing) (visits.take k) (visits[k] :: visits.drop (k + 1)) := by
    conv => lhs; rw [hsplit]
    refine traverse_logging_append [] (visits.take k) _ fun m hm hmk => hbefore m hm ?_
    rw [hlength] at hmk
    exact Nat.lt_succ_of_le (by simpa using hmk)
  rw [hreached, traverse, logging, hlength, hfault, List.take_append_getElem]

end logging

end GuardedQuery
