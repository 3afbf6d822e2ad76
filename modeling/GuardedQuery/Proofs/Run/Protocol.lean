import GuardedQuery.Proofs.Run.Reaching
import GuardedQuery.Proofs.Tree.Nesting

/-! # The protocol of a run

Events come in an order that listeners rely on.  The rules that are open when an event comes
are those whose ends are still among the goals, so every step of a run keeps to that order.

- `openStack`: the rules that are open behind some events.
- `Follows`: events that keep to the order, from a place inside a document on.
- `Goal.take?_nests`: a goal that takes a token asks for the end of each rule it enters.
- `Reaches.follows`, `traceGoals_conducted`: every run keeps to the order.
-/

namespace GuardedQuery

/-! ## Events in order -/

def Event.nest (rules : List NodeKind) : Event → List NodeKind
  | enter rule _ _ => rule :: rules
  | exit _ => rules.tail
  | terminal .. | anomaly _ => rules

/-- The rules that are entered and not left yet, the innermost first. -/
def openStack (events : List Event) : List NodeKind :=
  events.foldl Event.nest []

def Token.terminal (token : Token) : Event :=
  .terminal token.kind token.range token.text

/-- Events inside a document.  They lead from some open rules, the innermost first, and some
tokens that are left to others.  Nothing happens outside of all rules or behind an anomaly. -/
inductive Follows (size : Nat) :
    List NodeKind → List Token → List Event → List NodeKind → List Token → Prop where
  | nil {rules : List NodeKind} {tokens : List Token} : Follows size rules tokens [] rules tokens
  | enter {rule : NodeKind} {rules last : List NodeKind} {tokens rest : List Token}
      {events : List Event} (hopen : rules ≠ [])
      (h : Follows size (rule :: rules) tokens events last rest) :
      Follows size rules tokens ((Place.before size tokens).enter rule :: events) last rest
  | exit {rule : NodeKind} {rules last : List NodeKind} {tokens rest : List Token}
      {events : List Event} (h : Follows size rules tokens events last rest) :
      Follows size (rule :: rules) tokens (.exit rule :: events) last rest
  | terminal {rules last : List NodeKind} {token : Token} {tokens rest : List Token}
      {events : List Event} (hopen : rules ≠ []) (h : Follows size rules tokens events last rest) :
      Follows size rules (token :: tokens) (token.terminal :: events) last rest
  | anomaly {rules : List NodeKind} {tokens : List Token} {message : String}
      (hopen : rules ≠ []) :
      Follows size rules tokens [.anomaly ((Place.before size tokens).anomaly message)] rules tokens

namespace Follows

variable {size : Nat} {rules last : List NodeKind} {tokens rest : List Token}
  {events front back : List Event}

theorem of_append (h : Follows size rules tokens (front ++ back) last rest) :
    ∃ between left, Follows size rules tokens front between left ∧
      Follows size between left back last rest := by
  induction front generalizing rules tokens with
  | nil => exact ⟨rules, tokens, .nil, h⟩
  | cons event front ih =>
    generalize hevents : event :: front ++ back = events at h
    cases h with
    | nil => cases hevents
    | enter hopen h =>
      cases hevents
      obtain ⟨between, left, hfront, hback⟩ := ih h
      exact ⟨between, left, hfront.enter hopen, hback⟩
    | exit h =>
      cases hevents
      obtain ⟨between, left, hfront, hback⟩ := ih h
      exact ⟨between, left, hfront.exit, hback⟩
    | terminal hopen h =>
      cases hevents
      obtain ⟨between, left, hfront, hback⟩ := ih h
      exact ⟨between, left, hfront.terminal hopen, hback⟩
    | anomaly hopen =>
      obtain ⟨rfl, hnil⟩ := List.cons.inj hevents
      obtain ⟨rfl, rfl⟩ := List.append_eq_nil_iff.1 hnil
      exact ⟨_, _, .anomaly hopen, .nil⟩

/-- The open rules are the ones that were entered and not left. -/
theorem foldl_nest (h : Follows size rules tokens events last rest) :
    events.foldl Event.nest rules = last := by
  induction h with
  | nil => rfl
  | enter _ _ ih => exact ih
  | exit _ ih => exact ih
  | terminal _ _ ih => exact ih
  | anomaly => rfl

/-- The tokens that are no longer left were taken, in order and one by one. -/
theorem taken (h : Follows size rules tokens events last rest) : ∃ front,
    tokens = front ++ rest ∧ events.filter Event.isTerminal = front.map Token.terminal := by
  induction h with
  | nil => exact ⟨[], rfl, rfl⟩
  | enter _ _ ih => exact ih
  | exit _ ih => exact ih
  | @terminal _ _ token _ _ _ _ _ ih =>
    obtain ⟨front, rfl, hfront⟩ := ih
    exact ⟨token :: front, rfl, by rw [List.filter_cons_of_pos rfl, hfront, List.map_cons]⟩
  | anomaly => exact ⟨[], rfl, rfl⟩

theorem drop_eq (h : Follows size rules tokens events last rest) :
    terminalCount events ≤ tokens.length ∧ tokens.drop (terminalCount events) = rest := by
  obtain ⟨front, rfl, hfront⟩ := h.taken
  have hcount : terminalCount events = front.length := by
    rw [terminalCount, List.countP_eq_length_filter, hfront, List.length_map]
  rw [hcount]
  simp

/-- Events happen inside some rule. -/
theorem ne_nil {event : Event} (h : Follows size rules tokens (event :: events) last rest) :
    rules ≠ [] := by
  cases h with
  | enter hopen _ | terminal hopen _ | anomaly hopen => exact hopen
  | exit _ => exact List.cons_ne_nil _ _

/-- The events that close all rules end with the outermost. -/
theorem getLast?_eq (h : Follows size rules tokens events last rest) (hlast : last = [])
    {inner : List NodeKind} {outermost : NodeKind} (hrules : rules = inner ++ [outermost]) :
    events.getLast? = some (.exit outermost) := by
  induction h generalizing inner with
  | nil => simp [hlast] at hrules
  | @enter rule _ _ _ _ _ _ _ ih =>
    have hinner : rule :: _ = (rule :: inner) ++ [outermost] := congrArg (rule :: ·) hrules
    have hevents := ih hlast hinner
    rw [List.getLast?_cons, hevents, Option.getD_some]
  | @exit rule rules _ _ _ events h ih =>
    cases inner with
    | nil =>
      cases hrules
      cases events with
      | nil => rfl
      | cons event events => exact (h.ne_nil rfl).elim
    | cons _ inner =>
      cases hrules
      rw [List.getLast?_cons, ih hlast rfl, Option.getD_some]
  | terminal _ _ ih => rw [List.getLast?_cons, ih hlast hrules, Option.getD_some]
  | anomaly hopen => exact (hopen hlast).elim

/-- With an anomaly rules stay open. -/
theorem ne_nil_of_anomaly (h : Follows size rules tokens events last rest) {anomaly : Anomaly}
    (hanomaly : .anomaly anomaly ∈ events) : last ≠ [] := by
  induction h with
  | nil => cases hanomaly
  | enter _ _ ih | exit _ ih | terminal _ _ ih =>
    cases hanomaly with
    | tail _ hanomaly => exact ih hanomaly
  | anomaly hopen => exact hopen

/-- Rules that are entered one inside the other. -/
theorem enters (hopen : rules ≠ []) (enters : List NodeKind)
    (h : Follows size (enters.reverse ++ rules) tokens events last rest) :
    Follows size rules tokens (enters.map (Place.before size tokens).enter ++ events) last
      rest := by
  induction enters generalizing rules with
  | nil => exact h
  | cons rule enters ih =>
    rw [List.reverse_cons, List.append_assoc] at h
    exact (ih (List.cons_ne_nil rule rules) h).enter hopen

/-- A token that is taken, with the rules that start at it. -/
theorem taking (hopen : rules ≠ []) {token : Token} {enters : List NodeKind}
    (h : Follows size (enters.reverse ++ rules) tokens events last rest) :
    Follows size rules (token :: tokens) (token.taking enters ++ events) last rest := by
  rw [Token.taking, List.append_assoc]
  exact Follows.enters hopen enters (h.terminal (List.append_ne_nil_of_right_ne_nil _ hopen))

end Follows

/-! ## Goals and open rules -/

def closes (goals : List Goal) : List NodeKind :=
  goals.filterMap fun
    | .leave rule => some rule
    | _ => none

@[simp] theorem closes_nil : closes [] = [] := rfl

@[simp] theorem closes_append (goals more : List Goal) :
    closes (goals ++ more) = closes goals ++ closes more :=
  List.filterMap_append

@[simp] theorem closes_leave (rule : NodeKind) (goals : List Goal) :
    closes (.leave rule :: goals) = rule :: closes goals := rfl

/-- Goals that lie inside one rule: none of them is the end of a rule or starts a document. -/
def Inner (goals : List Goal) : Prop := closes goals = [] ∧ .firstDefinition ∉ goals

/-- What is taken is well nested: the goals hold the end of each rule that is entered, and none
starts a document. -/
def Taken.Nests (taken : Taken) : Prop :=
  closes taken.goals = taken.enters.reverse ∧ .firstDefinition ∉ taken.goals

namespace Taking

def Nests (take : Taking) : Prop :=
  ∀ token next taken, take token next = some taken → taken.Nests

variable {take other : Taking} {goals : List Goal}

theorem nests_opening {test : Token → Bool} (h : Inner goals) : (opening test goals).Nests := by
  intro token next taken htake
  obtain ⟨-, rfl⟩ := of_opening htake
  exact h

theorem Nests.andThen (h : take.Nests) (hgoals : Inner goals) : (take.andThen goals).Nests := by
  intro token next taken htake
  obtain ⟨inner, hinner, rfl⟩ := Option.map_eq_some_iff.1 htake
  obtain ⟨hcloses, hfirst⟩ := h token next inner hinner
  constructor
  · simpa [Taken.andThen, hgoals.1] using hcloses
  · simpa [Taken.andThen, hgoals.2] using hfirst

theorem Nests.inside (h : take.Nests) (rule : NodeKind) : (take.inside rule).Nests := by
  intro token next taken htake
  obtain ⟨inner, hinner, rfl⟩ := Option.map_eq_some_iff.1 htake
  obtain ⟨hcloses, hfirst⟩ := h token next inner hinner
  constructor
  · simp [Taken.andThen, Taken.within, hcloses]
  · simpa [Taken.andThen, Taken.within] using hfirst

theorem Nests.orElse (h : take.Nests) (hother : other.Nests) : (take.orElse other).Nests := by
  intro token next taken htake
  rcases of_orElse htake with htake | htake
  · exact h token next taken htake
  · exact hother token next taken htake

theorem Nests.lookingAhead (h : take.Nests) (hother : other.Nests) (test : Option Token → Bool) :
    (take.lookingAhead test other).Nests := by
  intro token next taken htake
  rcases of_lookingAhead htake with htake | htake
  · exact h token next taken htake
  · exact hother token next taken htake

theorem Nests.closeOr (h : take.Nests) (close : TokenKind) {more : Goal} (hmore : Inner [more]) :
    Nests fun token next => Goal.closeOr close token more (take token next) := by
  rw [Goal.closeOr_eq]
  exact (nests_opening ⟨rfl, by simp⟩).orElse (h.andThen hmore)

end Taking

namespace Goal

open Taking

theorem inner_of_all {goals : List Goal} (h : goals.all fun
    | leave _ | firstDefinition => false
    | _ => true) : Inner goals := by
  induction goals with
  | nil => exact ⟨rfl, by simp⟩
  | cons goal goals ih =>
    rw [List.all_cons, Bool.and_eq_true] at h
    obtain ⟨hcloses, hfirst⟩ := ih h.2
    cases goal with
    | leave _ | firstDefinition => cases h.1
    | _ => exact ⟨hcloses, by simpa using hfirst⟩

theorem takeSelectionSet?_nests : Nests fun t _ => takeSelectionSet? t := by
  rw [takeSelectionSet?_eq]
  exact (nests_opening (inner_of_all rfl)).inside _

theorem takeDefinition?_nests : Nests fun t _ => takeDefinition? t := by
  rw [takeDefinition?_eq]
  exact ((nests_opening (inner_of_all rfl)).inside _).orElse
    (((nests_opening (inner_of_all rfl)).inside _).orElse (takeSelectionSet?_nests.inside _))

theorem takeVariable?_nests : Nests fun t _ => takeVariable? t := by
  rw [takeVariable?_eq]
  exact (nests_opening (inner_of_all rfl)).inside _

theorem takeVariableDefinition?_nests : Nests fun t _ => takeVariableDefinition? t := by
  rw [takeVariableDefinition?_eq]
  exact (takeVariable?_nests.andThen (inner_of_all rfl)).inside _

theorem takeNamedType?_nests : Nests fun t _ => takeNamedType? t := by
  rw [takeNamedType?_eq]
  exact (nests_opening (inner_of_all rfl)).inside _

theorem takeType?_nests : Nests fun t _ => takeType? t := by
  rw [takeType?_eq]
  exact ((((nests_opening (inner_of_all rfl)).inside _).orElse takeNamedType?_nests).andThen
    (inner_of_all rfl)).inside _

theorem takeTypeCondition?_nests : Nests fun t _ => takeTypeCondition? t := by
  rw [takeTypeCondition?_eq]
  exact (nests_opening (inner_of_all rfl)).inside _

theorem takeArgument?_nests (constant : Bool) : Nests fun t _ => takeArgument? constant t := by
  rw [takeArgument?_eq]
  exact (nests_opening (inner_of_all rfl)).inside _

theorem takeDirective?_nests (constant : Bool) : Nests fun t _ => takeDirective? constant t := by
  rw [takeDirective?_eq]
  exact (nests_opening (inner_of_all rfl)).inside _

theorem takeObjectField?_nests (constant : Bool) :
    Nests fun t _ => takeObjectField? constant t := by
  rw [takeObjectField?_eq]
  exact (nests_opening (inner_of_all rfl)).inside _

theorem takeLiteral_nests (constant : Bool) : (takeLiteral constant).Nests := by
  have scalar {test : Token → Bool} {goals : List Goal} (rule : NodeKind) (h : Inner goals) :
      ((opening test goals).inside rule).Nests := (nests_opening h).inside rule
  have hstring : (((opening (·.kind = .stringLit) []).orElse
      (opening (·.kind = .blockStringLit) [])).inside .stringValue).Nests :=
    ((nests_opening (inner_of_all rfl)).orElse (nests_opening (inner_of_all rfl))).inside _
  exact (scalar _ (inner_of_all rfl)).orElse <| (scalar _ (inner_of_all rfl)).orElse <|
    hstring.orElse <| (scalar _ (inner_of_all rfl)).orElse <|
    (scalar _ (inner_of_all rfl)).orElse <| (scalar _ (inner_of_all rfl)).orElse <|
    (scalar _ (inner_of_all rfl)).orElse (scalar _ (inner_of_all rfl))

theorem takeValue?_nests (constant : Bool) : Nests fun t _ => takeValue? constant t := by
  rw [takeValue?_eq]
  refine Nests.orElse ?_ (takeLiteral_nests constant)
  cases constant with
  | false => exact takeVariable?_nests
  | true =>
    intro token next taken htake
    cases htake

theorem takeField?_nests : Nests takeField? := by
  rw [takeField?_eq]
  refine Nests.lookingAhead ?_ ((nests_opening (inner_of_all rfl)).inside _) _
  exact (((nests_opening (inner_of_all rfl)).inside _).andThen (inner_of_all rfl)).inside _

theorem takeSpread?_nests : Nests takeSpread? := by
  rw [takeSpread?_eq]
  exact Nests.lookingAhead ((nests_opening (inner_of_all rfl)).inside _)
    ((nests_opening (inner_of_all rfl)).inside _) _

theorem takeSelection?_nests : Nests takeSelection? := by
  rw [takeSelection?_eq]
  exact takeSpread?_nests.orElse takeField?_nests

/-- Apart from the start of a document, which has its end among the goals already, whatever
takes a token asks for the end of each rule it enters. -/
theorem take?_nests {goal : Goal} (hfirst : goal ≠ .firstDefinition) : Nests goal.take? := by
  cases goal with
  | firstDefinition => exact (hfirst rfl).elim
  | leave _ =>
    intro token next taken htake
    cases htake
  | definitions => exact takeDefinition?_nests.andThen (inner_of_all rfl)
  | token kind what =>
    rw [take?_token]
    exact nests_opening (inner_of_all rfl)
  | optionalName =>
    rw [take?_optionalName]
    exact nests_opening (inner_of_all rfl)
  | optionalBang =>
    rw [take?_optionalBang]
    exact nests_opening (inner_of_all rfl)
  | fragmentName =>
    rw [take?_fragmentName]
    exact nests_opening (inner_of_all rfl)
  | optionalVariableDefinitions =>
    rw [take?_optionalVariableDefinitions]
    exact (nests_opening (inner_of_all rfl)).inside _
  | variableDefinition => exact takeVariableDefinition?_nests
  | moreVariableDefinitions =>
    exact takeVariableDefinition?_nests.closeOr .parenClose (inner_of_all rfl)
  | type => exact takeType?_nests
  | optionalDefault =>
    rw [take?_optionalDefault]
    exact (nests_opening (inner_of_all rfl)).inside _
  | typeCondition => exact takeTypeCondition?_nests
  | optionalTypeCondition => exact takeTypeCondition?_nests
  | namedType => exact takeNamedType?_nests
  | selectionSet => exact takeSelectionSet?_nests
  | optionalSelectionSet => exact takeSelectionSet?_nests
  | selection => exact takeSelection?_nests
  | moreSelections => exact takeSelection?_nests.closeOr .braceClose (inner_of_all rfl)
  | optionalDirectives constant =>
    rw [take?_optionalDirectives]
    exact ((takeDirective?_nests constant).andThen (inner_of_all rfl)).inside _
  | moreDirectives constant => exact (takeDirective?_nests constant).andThen (inner_of_all rfl)
  | optionalArguments constant =>
    rw [take?_optionalArguments]
    exact (nests_opening (inner_of_all rfl)).inside _
  | argument constant => exact takeArgument?_nests constant
  | moreArguments constant =>
    exact (takeArgument?_nests constant).closeOr .parenClose (inner_of_all rfl)
  | value constant => exact takeValue?_nests constant
  | listItems constant => exact (takeValue?_nests constant).closeOr .bracketClose (inner_of_all rfl)
  | objectFields constant =>
    exact (takeObjectField?_nests constant).closeOr .braceClose (inner_of_all rfl)

end Goal

/-! ## Runs -/

/-- The goals of a run that has started: the end of the document is the last of them, and they
are none once it is left. -/
def Underway (goals : List Goal) : Prop :=
  .firstDefinition ∉ goals ∧ (goals = [] ∨ ∃ upper, goals = upper ++ [.leave .document])

section

variable {size : Nat} {rest front : List Token} {goals left : List Goal} {goal : Goal}
  {events later : List Event} {rules : List NodeKind} {remaining : List Token}

theorem Underway.tail (h : Underway (goal :: goals)) : Underway goals := by
  obtain ⟨hfirst, hnil | ⟨upper, hupper⟩⟩ := h
  · cases hnil
  · refine ⟨fun member => hfirst (List.mem_cons_of_mem _ member), ?_⟩
    cases upper with
    | nil =>
      cases hupper
      exact .inl rfl
    | cons _ upper =>
      cases hupper
      exact .inr ⟨upper, rfl⟩

theorem Underway.closes_ne_nil (h : Underway goals) (hgoals : goals ≠ []) : closes goals ≠ [] := by
  obtain ⟨-, hnil | ⟨upper, rfl⟩⟩ := h
  · exact (hgoals hnil).elim
  · rw [closes_append]
    exact List.append_ne_nil_of_right_ne_nil _ (List.cons_ne_nil _ _)

theorem closes_cons_of_take {token : Token} {next : Option Token} {taken : Taken}
    (h : goal.take? token next = some taken) : closes (goal :: goals) = closes goals := by
  cases goal with
  | leave rule => cases h
  | _ => rfl

theorem closes_cons_of_reject {token : Option Token} {enters : List NodeKind} {message : String}
    (h : goal.decline token = .reject enters message) :
    closes (goal :: goals) = closes goals := by
  cases goal with
  | leave rule => cases h
  | _ => rfl

theorem closes_cons_of_skip {token : Option Token} (h : goal.decline token = .skip) :
    closes (goal :: goals) = closes goals := by
  cases goal with
  | leave rule => cases h
  | _ => rfl

/-- A goal that takes a token leaves a run underway, with the rules it enters open. -/
theorem Underway.take (h : Underway (goal :: goals)) {token : Token} {next : Option Token}
    {taken : Taken} (htake : goal.take? token next = some taken) :
    Underway (taken.goals ++ goals) ∧
      closes (taken.goals ++ goals) = taken.enters.reverse ++ closes (goal :: goals) := by
  have hgoal : goal ≠ .firstDefinition := by
    rintro rfl
    exact h.1 List.mem_cons_self
  obtain ⟨hcloses, hfirst⟩ := Goal.take?_nests hgoal token next taken htake
  refine ⟨⟨?_, ?_⟩, ?_⟩
  · rw [List.mem_append]
    exact fun member => member.elim hfirst h.tail.1
  · -- What takes the token is not the end of the document.
    obtain ⟨-, hnil | ⟨upper, hupper⟩⟩ := h
    · cases hnil
    · cases upper with
      | nil =>
        cases hupper
        cases htake
      | cons _ upper =>
        cases hupper
        exact .inr ⟨taken.goals ++ upper, (List.append_assoc _ _ _).symm⟩
  · rw [closes_append, hcloses, closes_cons_of_take htake]

/-- The goals of a run stay those of one that has started. -/
theorem Reaches.underway (h : Reaches rest front goals events left) (hgoals : Underway goals) :
    Underway left := by
  induction h with
  | refl => exact hgoals
  | take htake _ ih => exact ih (hgoals.take htake).1
  | skip _ _ _ ih => exact ih hgoals.tail
  | leave _ ih => exact ih hgoals.tail

/-- The steps of a run keep to the order of events. -/
theorem Reaches.follows (h : Reaches rest front goals events left) (hgoals : Underway goals)
    (hlater : Follows size (closes left) rest later rules remaining) :
    Follows size (closes goals) (front ++ rest) (events ++ later) rules remaining := by
  induction h with
  | refl => exact hlater
  | take htake _ ih =>
    obtain ⟨hnext, hcloses⟩ := hgoals.take htake
    have hfollows := ih hnext hlater
    rw [hcloses] at hfollows
    rw [List.append_assoc]
    exact hfollows.taking (hgoals.closes_ne_nil (List.cons_ne_nil _ _))
  | skip hskip _ _ ih =>
    rw [closes_cons_of_skip (hskip none)]
    exact ih hgoals.tail hlater
  | leave _ ih => exact (ih hgoals.tail hlater).exit

/-- From its first token on a run is underway inside the document. -/
theorem underway_of_takeDefinition? {token : Token} {inner : Taken}
    (hinner : Goal.takeDefinition? token = some inner) :
    Underway (inner.goals ++ [.definitions, .leave .document]) := by
  obtain ⟨-, hfirst⟩ := Goal.takeDefinition?_nests token none inner hinner
  exact ⟨by simpa using hfirst, .inr ⟨inner.goals ++ [.definitions], by simp⟩⟩

/-- The steps behind the first token of a document happen inside of it. -/
theorem Reaches.follows_document {token : Token} {inner : Taken}
    (h : Reaches rest front (inner.goals ++ [.definitions, .leave .document]) events left)
    (hinner : Goal.takeDefinition? token = some inner)
    (hlater : Follows size (closes left) rest later rules remaining) :
    Follows size [.document] (token :: front ++ rest)
      (token.taking inner.enters ++ (events ++ later)) rules remaining := by
  obtain ⟨hcloses, -⟩ := Goal.takeDefinition?_nests token none inner hinner
  have hclosed : closes (inner.goals ++ [.definitions, .leave .document]) =
      inner.enters.reverse ++ [.document] := by
    rw [closes_append, hcloses]
    rfl
  have hfollows := h.follows (underway_of_takeDefinition? hinner) hlater
  rw [hclosed] at hfollows
  exact hfollows.taking (List.cons_ne_nil _ _)

end

/-- The order of events in a whole run: it enters the document first, then leaves it behind
all tokens or behind some of them, or comes to an anomaly inside. -/
inductive Conducted (size : Nat) (tokens : List Token) : Trace → Prop where
  | complete {events : List Event} (h : Follows size [.document] tokens events [] []) :
      Conducted size tokens ⟨(Place.before size tokens).enter .document :: events, .complete⟩
  | trailing {events : List Event} {rest : List Token} {last : Token}
      (h : Follows size [.document] tokens events [] rest) (hrest : rest ≠ [])
      (htaken : rest.length < tokens.length) :
      Conducted size tokens
        ⟨(Place.before size tokens).enter .document :: events, .trailing last⟩
  | anomaly {events : List Event} {rules : List NodeKind} {rest : List Token} {anomaly : Anomaly}
      (h : Follows size [.document] tokens (events ++ [.anomaly anomaly]) rules rest) :
      Conducted size tokens
        ⟨(Place.before size tokens).enter .document :: (events ++ [.anomaly anomaly]),
          .anomaly anomaly⟩

theorem traceGoals_conducted (size : Nat) (tokens : List Token) :
    Conducted size tokens (traceGoals size tokens documentGoals) := by
  obtain ⟨front, rest, events, left, rfl, hreaches, hstops⟩ := settles tokens documentGoals
  rw [hreaches.trace size]
  cases hreaches with
  | refl =>
    cases hstops with
    | rejected hreject hnone =>
      rw [documentGoals, traceGoals_reject hreject hnone]
      cases hreject
      exact .anomaly (.anomaly (List.cons_ne_nil _ _))
  | skip hskip _ _ => cases hskip none
  | @take token front _ _ _ taken events htake h =>
    obtain ⟨inner, hinner, rfl⟩ := Option.map_eq_some_iff.1 htake
    have hsteps : Reaches rest front (inner.goals ++ [.definitions, .leave .document]) events left :=
      h
    have hstart : token.taking (inner.within .document).enters =
        (Place.before size (token :: front ++ rest)).enter .document ::
          token.taking inner.enters := rfl
    rw [hstart, Trace.after, List.cons_append, List.append_assoc]
    cases hstops with
    | met =>
      have hend : Follows size (closes []) rest [] [] rest := .nil
      have hfollows := hsteps.follows_document hinner hend
      cases rest with
      | nil => exact .complete hfollows
      | cons next rest =>
        have hlength : (next :: rest).length < (token :: front ++ next :: rest).length := by
          simp only [List.length_append, List.length_cons]
          omega
        rw [traceGoals_cons_nil]
        exact .trailing hfollows (List.cons_ne_nil _ _) hlength
    | @rejected goal goals enters message hreject hnone =>
      have hgoals := hsteps.underway (underway_of_takeDefinition? hinner)
      have hopen := hgoals.closes_ne_nil (List.cons_ne_nil goal goals)
      have hanomaly : Follows size (enters.reverse ++ closes (goal :: goals)) rest
          [.anomaly ((Place.before size rest).anomaly message)] _ rest :=
        .anomaly (List.append_ne_nil_of_right_ne_nil _ hopen)
      have hfollows := hsteps.follows_document hinner (Follows.enters hopen enters hanomaly)
      rw [traceGoals_reject hreject hnone]
      simp only [← List.append_assoc] at hfollows ⊢
      exact .anomaly hfollows

end GuardedQuery
