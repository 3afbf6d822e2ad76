import GuardedQuery.Syntax.Run

/-! # Traces of a run

What a run over the tokens does does not depend on who looks on: an observer only
decides how much of it happens.  A trace is the run that nobody stops, and a run before
an observer is its trace, shown to the observer event by event.

- `Trace`: all events of a run and how it ends.
- `traceGoals`: the trace of a run, with one equation for each thing a goal can do.
- `runGoals_eq_observe`: every run is an observation of its trace.
-/

namespace GuardedQuery

structure Trace where
  events : List Event
  ending : Ending
deriving Repr, DecidableEq

namespace Trace

def after (events : List Event) (trace : Trace) : Trace :=
  { trace with events := events ++ trace.events }

@[simp] theorem after_after (events more : List Event) (trace : Trace) :
    (trace.after more).after events = trace.after (events ++ more) := by
  simp [after]

@[simp] theorem events_after (events : List Event) (trace : Trace) :
    (trace.after events).events = events ++ trace.events := rfl

@[simp] theorem ending_after (events : List Event) (trace : Trace) :
    (trace.after events).ending = trace.ending := rfl

/-- Shows the events to an observer; the run ends with the first veto. -/
def observe {σ : Type} (observer : Observer σ) (progress : Progress σ) (trace : Trace) :
    Progress σ × Ending :=
  match progress.report observer trace.events with
  | (progress, some fault) => (progress, .vetoed fault)
  | (progress, none) => (progress, trace.ending)

end Trace

/-- The events with which a run takes a token and enters the rules that start there. -/
def Token.taking (token : Token) (enters : List NodeKind) : List Event :=
  enters.map (Place.ofToken token).enter ++ [.terminal token.kind token.range token.text]

def traceGoals (size : Nat) : List Token → List Goal → Trace
  | [], goals =>
    let (events, settled) := settle (.ofEnd size) (fun _ => (none : Option Empty)) goals
    match settled with
    | .met => ⟨events, .complete⟩
    | .refused anomaly => ⟨events, .anomaly anomaly⟩
    | .took taken _ => nomatch taken
  | token :: rest, goals =>
    let (events, settled) := settle (.ofToken token) (·.take? token rest.head?) goals
    match settled with
    | .met => ⟨events, .trailing ((token :: rest).getLast (List.cons_ne_nil token rest))⟩
    | .refused anomaly => ⟨events, .anomaly anomaly⟩
    | .took taken goals =>
      (traceGoals size rest (taken.goals ++ goals)).after (events ++ token.taking taken.enters)

/-! ## One goal at a time -/

section settle

variable {α : Type} {place : Place} (take? : Goal → Option α) {goal : Goal} {goals : List Goal}

theorem settle_take {taken : α} (h : take? goal = some taken) :
    settle place take? (goal :: goals) = ([], .took taken goals) := by
  simp [settle, h]

theorem settle_skip (h : take? goal = none) (hdecline : goal.decline place.token? = .skip) :
    settle place take? (goal :: goals) = settle place take? goals := by
  simp [settle, h, hdecline]

theorem settle_leave {rule : NodeKind} (h : take? (.leave rule) = none) :
    settle place take? (.leave rule :: goals) =
      (.exit rule :: (settle place take? goals).1, (settle place take? goals).2) := by
  simp [settle, h, Goal.decline]

theorem settle_reject {enters : List NodeKind} {message : String} (h : take? goal = none)
    (hdecline : goal.decline place.token? = .reject enters message) :
    settle place take? (goal :: goals) =
      (enters.map place.enter ++ [.anomaly (place.anomaly message)],
        .refused (place.anomaly message)) := by
  simp [settle, h, hdecline]

end settle

variable {size : Nat} {token : Token} {tokens rest : List Token} {goal : Goal}
  {goals : List Goal}

@[simp] theorem traceGoals_nil_nil : traceGoals size [] [] = ⟨[], .complete⟩ := rfl

@[simp] theorem traceGoals_cons_nil :
    traceGoals size (token :: rest) [] =
      ⟨[], .trailing ((token :: rest).getLast (List.cons_ne_nil token rest))⟩ := by
  simp [traceGoals, settle]

theorem traceGoals_take {taken : Taken} (h : goal.take? token rest.head? = some taken) :
    traceGoals size (token :: rest) (goal :: goals) =
      (traceGoals size rest (taken.goals ++ goals)).after (token.taking taken.enters) := by
  simp [traceGoals, settle_take (·.take? token rest.head?) h]

/-- A goal that may be left out is, unless it takes the next token. -/
theorem traceGoals_skip (hskip : ∀ token, goal.decline token = .skip)
    (h : ∀ token ∈ tokens.head?, ∀ next, goal.take? token next = none) :
    traceGoals size tokens (goal :: goals) = traceGoals size tokens goals := by
  cases tokens with
  | nil =>
    simp only [traceGoals, settle_skip (fun _ => (none : Option Empty)) rfl (hskip _)]
  | cons token rest =>
    have hnone := h token rfl rest.head?
    simp only [traceGoals, settle_skip (·.take? token rest.head?) hnone (hskip _)]

theorem traceGoals_leave {rule : NodeKind} :
    traceGoals size tokens (.leave rule :: goals) =
      (traceGoals size tokens goals).after [.exit rule] := by
  cases tokens with
  | nil =>
    simp only [traceGoals, settle_leave (fun _ => (none : Option Empty)) rfl]
    cases (settle (.ofEnd size) (fun _ => (none : Option Empty)) goals).2 with
    | met | refused _ => rfl
    | took taken _ => exact nomatch taken
  | cons token rest =>
    simp only [traceGoals, settle_leave (·.take? token rest.head?) rfl]
    cases (settle (.ofToken token) (·.take? token rest.head?) goals).2 with
    | met | refused _ => rfl
    | took taken below => simp

def Place.before (size : Nat) : List Token → Place
  | [] => .ofEnd size
  | token :: _ => .ofToken token

/-- A goal that must be met ends the run if it does not take the next token. -/
theorem traceGoals_reject {enters : List NodeKind} {message : String}
    (hreject : goal.decline tokens.head? = .reject enters message)
    (h : ∀ token ∈ tokens.head?, ∀ next, goal.take? token next = none) :
    traceGoals size tokens (goal :: goals) =
      ⟨enters.map (Place.before size tokens).enter ++
          [.anomaly ((Place.before size tokens).anomaly message)],
        .anomaly ((Place.before size tokens).anomaly message)⟩ := by
  cases tokens with
  | nil =>
    have hplace : goal.decline (Place.ofEnd size).token? = _ := hreject
    simp only [traceGoals, settle_reject (fun _ => (none : Option Empty)) rfl hplace,
      Place.before]
  | cons token rest =>
    have hplace : goal.decline (Place.ofToken token).token? = _ := hreject
    have hnone := h token rfl rest.head?
    simp only [traceGoals, settle_reject (·.take? token rest.head?) hnone hplace, Place.before]

/-! ## Runs before an observer -/

theorem Progress.report_append {σ : Type} (observer : Observer σ) (progress : Progress σ)
    (events more : List Event) :
    progress.report observer (events ++ more) =
      match progress.report observer events with
      | (progress, some fault) => (progress, some fault)
      | (progress, none) => progress.report observer more := by
  induction events generalizing progress with
  | nil => rfl
  | cons event events ih =>
    simp only [List.cons_append, Progress.report]
    rcases observer progress.state event with ⟨state, _ | fault⟩
    · exact ih _
    · rfl

/-- Showing a trace with events in front is showing the events first. -/
theorem Trace.observe_after {σ : Type} (observer : Observer σ) (progress : Progress σ)
    (events : List Event) (trace : Trace) :
    (trace.after events).observe observer progress =
      match progress.report observer events with
      | (progress, some fault) => (progress, .vetoed fault)
      | (progress, none) => trace.observe observer progress := by
  simp only [observe, events_after, Progress.report_append, ending_after]
  rcases progress.report observer events with ⟨progress, _ | fault⟩ <;> rfl

/-- A run shows its trace to the observer and stops at the first veto. -/
theorem runGoals_eq_observe {σ : Type} (observer : Observer σ) (size : Nat)
    (tokens : List Token) (goals : List Goal) (progress : Progress σ) :
    runGoals observer size tokens goals progress =
      (traceGoals size tokens goals).observe observer progress := by
  induction tokens generalizing goals progress with
  | nil =>
    simp only [runGoals, traceGoals]
    rcases settle (.ofEnd size) (fun _ => (none : Option Empty)) goals with ⟨events, settled⟩
    cases settled with
    | met | refused _ => rfl
    | took taken _ => exact nomatch taken
  | cons token rest ih =>
    simp only [runGoals, traceGoals]
    rcases settle (.ofToken token) (·.take? token rest.head?) goals with ⟨events, settled⟩
    cases settled with
    | met | refused _ => rfl
    | took taken below =>
      -- The events up to the token are shown first; a veto keeps the run from what follows.
      simp only [Trace.observe_after, ih]
      rfl

end GuardedQuery
