import GuardedQuery.Syntax.Event
import GuardedQuery.Syntax.Goal

/-! # Running the grammar

A run keeps a stack of goals and works through the significant tokens.  At each token
it drops goals that ask for nothing, closes rules that are complete, and lets the first
goal that takes the token do so.  Observers see the events one by one; a veto stops the
run at once.

- `settle`: what the goals on the stack do at one place.
- `Ending`: how a run can end.
- `Progress`: what a run has admitted so far.
- `run`: the run over all tokens.
-/

namespace GuardedQuery

structure Place where
  token? : Option Token
  range : ByteRange
  text : String

namespace Place

def ofToken (token : Token) : Place :=
  ⟨some token, token.range, token.text⟩

def ofEnd (size : Nat) : Place :=
  ⟨none, .empty size, endOfInputText⟩

def enter (place : Place) (rule : NodeKind) : Event :=
  .enter rule place.range place.text

def anomaly (place : Place) (message : String) : Anomaly :=
  ⟨place.range, place.text, message⟩

end Place

inductive Settled (α : Type) where
  | met
  | refused (anomaly : Anomaly)
  | took (taken : α) (goals : List Goal)

/-- Works down the stack until a goal takes the token, as `take?` says, or finds fault.
Gives the events on the way, those of the taken token left out. -/
def settle {α : Type} (place : Place) (take? : Goal → Option α) :
    List Goal → List Event × Settled α
  | [] => ([], .met)
  | goal :: goals =>
    match take? goal with
    | some taken => ([], .took taken goals)
    | none =>
      match goal.decline place.token? with
      | .skip => settle place take? goals
      | .leave rule =>
        let (events, settled) := settle place take? goals
        (.exit rule :: events, settled)
      | .reject enters message =>
        let anomaly := place.anomaly message
        (enters.map place.enter ++ [.anomaly anomaly], .refused anomaly)

inductive Ending where
  | complete
  /-- A document is complete, but more tokens follow, the last of which is given. -/
  | trailing (last : Token)
  | anomaly (anomaly : Anomaly)
  | vetoed (fault : Fault)
deriving Repr, DecidableEq

/-- The state of the observer and the events it admitted, the latest first. -/
structure Progress (σ : Type) where
  state : σ
  admitted : List Event := []

namespace Progress

def report {σ : Type} (observer : Observer σ) (progress : Progress σ) :
    List Event → Progress σ × Option Fault
  | [] => (progress, none)
  | event :: events =>
    match observer progress.state event with
    | (state, some fault) => ({ progress with state }, some fault)
    | (state, none) => report observer { state, admitted := event :: progress.admitted } events

def events {σ : Type} (progress : Progress σ) : List Event :=
  progress.admitted.reverse

end Progress

def runGoals {σ : Type} (observer : Observer σ) (size : Nat) :
    List Token → List Goal → Progress σ → Progress σ × Ending
  | [], goals, progress =>
    let (events, settled) := settle (.ofEnd size) (fun _ => (none : Option Empty)) goals
    match progress.report observer events with
    | (progress, some fault) => (progress, .vetoed fault)
    | (progress, none) =>
      match settled with
      | .met => (progress, .complete)
      | .refused anomaly => (progress, .anomaly anomaly)
      | .took taken _ => nomatch taken
  | token :: rest, goals, progress =>
    -- Goals that close rules come before the one that takes the token, and so do their events.
    let place := Place.ofToken token
    let (events, settled) := settle place (·.take? token rest.head?) goals
    match settled with
    | .met =>
      match progress.report observer events with
      | (progress, some fault) => (progress, .vetoed fault)
      | (progress, none) => (progress, .trailing ((token :: rest).getLast (by simp)))
    | .refused anomaly =>
      match progress.report observer events with
      | (progress, some fault) => (progress, .vetoed fault)
      | (progress, none) => (progress, .anomaly anomaly)
    | .took taken goals =>
      let taking := taken.enters.map place.enter ++
        [.terminal token.kind token.range token.text]
      match progress.report observer (events ++ taking) with
      | (progress, some fault) => (progress, .vetoed fault)
      | (progress, none) => runGoals observer size rest (taken.goals ++ goals) progress

def documentGoals : List Goal :=
  [.firstDefinition, .definitions, .leave .document]

def run {σ : Type} (observer : Observer σ) (state : σ) (size : Nat) (tokens : List Token) :
    Progress σ × Ending :=
  runGoals observer size (significant tokens) documentGoals { state }

end GuardedQuery
