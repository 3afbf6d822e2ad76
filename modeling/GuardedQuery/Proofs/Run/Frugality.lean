import GuardedQuery.Proofs.Run.Protocol

/-! # How many rules a token opens

Rules are entered at a token, so a production that entered rules without taking one could
be made to work without end.  None does: at most two rules are entered for a token, the
document itself left aside, and at most one where a run finds fault.

- `enterCount`: rules entered.
- `Goal.take?_enters`, `Goal.decline_enters`: what one goal enters at one token.
- `Frugal`: events that enter no more rules than their tokens allow.
- `traceGoals_modest`: so does every run, at every moment.
-/

namespace GuardedQuery

/-! ## Counting entries -/

def enterCount (events : List Event) : Nat :=
  events.countP Event.isEnter

section counts

variable {rule : NodeKind} {kind : TokenKind} {range : ByteRange} {text : String}
  {anomaly : Anomaly}

@[simp] theorem enterCount_nil : enterCount [] = 0 := rfl

@[simp] theorem enterCount_append (events later : List Event) :
    enterCount (events ++ later) = enterCount events + enterCount later :=
  List.countP_append

@[simp] theorem enterCount_enter : enterCount [.enter rule range text] = 1 := rfl

@[simp] theorem enterCount_exit : enterCount [.exit rule] = 0 := rfl

@[simp] theorem enterCount_terminal : enterCount [.terminal kind range text] = 0 := rfl

@[simp] theorem enterCount_anomaly : enterCount [.anomaly anomaly] = 0 := rfl

theorem enterCount_enters (place : Place) (enters : List NodeKind) :
    enterCount (enters.map place.enter) = enters.length := by
  rw [enterCount, List.countP_map, List.countP_eq_length]
  exact fun _ _ => rfl

theorem terminalCount_enters (place : Place) (enters : List NodeKind) :
    terminalCount (enters.map place.enter) = 0 := by
  rw [terminalCount, List.countP_map, List.countP_eq_zero]
  exact fun _ _ h => by cases h

theorem enterCount_le_of_isPrefix {before events : List Event} (h : before <+: events) :
    enterCount before ≤ enterCount events :=
  h.sublist.countP_le

end counts

/-! ## One goal at one token -/

def Taking.Enters (take : Taking) (bound : Nat) : Prop :=
  ∀ token next taken, take token next = some taken → taken.enters.length ≤ bound

namespace Taking

variable {take other : Taking} {bound more : Nat}

theorem Enters.mono (h : take.Enters bound) (hle : bound ≤ more) : take.Enters more :=
  fun token next taken htake => Nat.le_trans (h token next taken htake) hle

theorem enters_opening (test : Token → Bool) (goals : List Goal) :
    (opening test goals).Enters 0 := by
  intro token next taken htake
  obtain ⟨-, rfl⟩ := of_opening htake
  exact Nat.le_refl 0

theorem Enters.andThen (h : take.Enters bound) (goals : List Goal) :
    (take.andThen goals).Enters bound := by
  intro token next taken htake
  obtain ⟨inner, hinner, rfl⟩ := Option.map_eq_some_iff.1 htake
  exact h token next inner hinner

theorem Enters.inside (h : take.Enters bound) (rule : NodeKind) :
    (take.inside rule).Enters (bound + 1) := by
  intro token next taken htake
  obtain ⟨inner, hinner, rfl⟩ := Option.map_eq_some_iff.1 htake
  exact Nat.succ_le_succ (h token next inner hinner)

theorem Enters.orElse (h : take.Enters bound) (hother : other.Enters bound) :
    (take.orElse other).Enters bound := by
  intro token next taken htake
  rcases of_orElse htake with htake | htake
  · exact h token next taken htake
  · exact hother token next taken htake

theorem Enters.lookingAhead (h : take.Enters bound) (hother : other.Enters bound)
    (test : Option Token → Bool) : (take.lookingAhead test other).Enters bound := by
  intro token next taken htake
  rcases of_lookingAhead htake with htake | htake
  · exact h token next taken htake
  · exact hother token next taken htake

theorem Enters.closeOr (h : take.Enters bound) (close : TokenKind) (goal : Goal) :
    Enters (fun token next => Goal.closeOr close token goal (take token next)) bound := by
  rw [Goal.closeOr_eq]
  exact ((enters_opening _ _).mono (Nat.zero_le bound)).orElse (h.andThen [goal])

end Taking

namespace Goal

open Taking

theorem takeSelectionSet?_enters : Enters (fun t _ => takeSelectionSet? t) 1 := by
  rw [takeSelectionSet?_eq]
  exact (enters_opening _ _).inside _

theorem takeDefinition?_enters : Enters (fun t _ => takeDefinition? t) 2 := by
  rw [takeDefinition?_eq]
  have hword (test : Token → Bool) (goals : List Goal) (rule : NodeKind) :
      ((opening test goals).inside rule).Enters 2 :=
    ((enters_opening test goals).inside rule).mono (by decide)
  -- Only an operation without a keyword starts with two rules, its own and its selection set.
  exact (hword _ _ _).orElse ((hword _ _ _).orElse (takeSelectionSet?_enters.inside _))

theorem takeVariable?_enters : Enters (fun t _ => takeVariable? t) 1 := by
  rw [takeVariable?_eq]
  exact (enters_opening _ _).inside _

theorem takeVariableDefinition?_enters : Enters (fun t _ => takeVariableDefinition? t) 2 := by
  rw [takeVariableDefinition?_eq]
  exact (takeVariable?_enters.andThen _).inside _

theorem takeNamedType?_enters : Enters (fun t _ => takeNamedType? t) 1 := by
  rw [takeNamedType?_eq]
  exact (enters_opening _ _).inside _

theorem takeType?_enters : Enters (fun t _ => takeType? t) 2 := by
  rw [takeType?_eq]
  exact ((((enters_opening _ _).inside _).orElse takeNamedType?_enters).andThen _).inside _

theorem takeTypeCondition?_enters : Enters (fun t _ => takeTypeCondition? t) 1 := by
  rw [takeTypeCondition?_eq]
  exact (enters_opening _ _).inside _

theorem takeArgument?_enters (constant : Bool) :
    Enters (fun t _ => takeArgument? constant t) 1 := by
  rw [takeArgument?_eq]
  exact (enters_opening _ _).inside _

theorem takeDirective?_enters (constant : Bool) :
    Enters (fun t _ => takeDirective? constant t) 1 := by
  rw [takeDirective?_eq]
  exact (enters_opening _ _).inside _

theorem takeObjectField?_enters (constant : Bool) :
    Enters (fun t _ => takeObjectField? constant t) 1 := by
  rw [takeObjectField?_eq]
  exact (enters_opening _ _).inside _

theorem takeLiteral_enters (constant : Bool) : (takeLiteral constant).Enters 1 := by
  have scalar (test : Token → Bool) (goals : List Goal) (rule : NodeKind) :
      ((opening test goals).inside rule).Enters 1 := (enters_opening test goals).inside rule
  have hstring : (((opening (·.kind = .stringLit) []).orElse
      (opening (·.kind = .blockStringLit) [])).inside .stringValue).Enters 1 :=
    ((enters_opening _ _).orElse (enters_opening _ _)).inside _
  exact (scalar _ _ _).orElse <| (scalar _ _ _).orElse <| hstring.orElse <|
    (scalar _ _ _).orElse <| (scalar _ _ _).orElse <| (scalar _ _ _).orElse <|
    (scalar _ _ _).orElse (scalar _ _ _)

theorem takeValue?_enters (constant : Bool) : Enters (fun t _ => takeValue? constant t) 1 := by
  rw [takeValue?_eq]
  refine Enters.orElse ?_ (takeLiteral_enters constant)
  cases constant with
  | false => exact takeVariable?_enters
  | true =>
    intro token next taken htake
    cases htake

theorem takeField?_enters : Enters takeField? 2 := by
  rw [takeField?_eq]
  refine Enters.lookingAhead ?_ (((enters_opening _ _).inside _).mono (by decide)) _
  exact (((enters_opening _ _).inside _).andThen _).inside _

theorem takeSpread?_enters : Enters takeSpread? 1 := by
  rw [takeSpread?_eq]
  exact Enters.lookingAhead ((enters_opening _ _).inside _) ((enters_opening _ _).inside _) _

theorem takeSelection?_enters : Enters takeSelection? 2 := by
  rw [takeSelection?_eq]
  exact (takeSpread?_enters.mono (by decide)).orElse takeField?_enters

/-- Behind the first token of a document no goal enters more than two rules at a token. -/
theorem take?_enters {goal : Goal} (hfirst : goal ≠ .firstDefinition) : Enters goal.take? 2 := by
  have one {take : Taking} (h : take.Enters 1) : take.Enters 2 := h.mono (by decide)
  have none {take : Taking} (h : take.Enters 0) : take.Enters 2 := h.mono (by decide)
  cases goal with
  | firstDefinition => exact (hfirst rfl).elim
  | leave _ =>
    intro token next taken htake
    cases htake
  | definitions => exact takeDefinition?_enters.andThen _
  | token kind what =>
    rw [take?_token]
    exact none (enters_opening _ _)
  | optionalName =>
    rw [take?_optionalName]
    exact none (enters_opening _ _)
  | optionalBang =>
    rw [take?_optionalBang]
    exact none (enters_opening _ _)
  | fragmentName =>
    rw [take?_fragmentName]
    exact none (enters_opening _ _)
  | optionalVariableDefinitions =>
    rw [take?_optionalVariableDefinitions]
    exact one ((enters_opening _ _).inside _)
  | variableDefinition => exact takeVariableDefinition?_enters
  | moreVariableDefinitions => exact takeVariableDefinition?_enters.closeOr .parenClose _
  | type => exact takeType?_enters
  | optionalDefault =>
    rw [take?_optionalDefault]
    exact one ((enters_opening _ _).inside _)
  | typeCondition | optionalTypeCondition => exact one takeTypeCondition?_enters
  | namedType => exact one takeNamedType?_enters
  | selectionSet | optionalSelectionSet => exact one takeSelectionSet?_enters
  | selection => exact takeSelection?_enters
  | moreSelections => exact takeSelection?_enters.closeOr .braceClose _
  | optionalDirectives constant =>
    rw [take?_optionalDirectives]
    exact ((takeDirective?_enters constant).andThen _).inside _
  | moreDirectives constant => exact one ((takeDirective?_enters constant).andThen _)
  | optionalArguments constant =>
    rw [take?_optionalArguments]
    exact one ((enters_opening _ _).inside _)
  | argument constant => exact one (takeArgument?_enters constant)
  | moreArguments constant => exact one ((takeArgument?_enters constant).closeOr .parenClose _)
  | value constant => exact one (takeValue?_enters constant)
  | listItems constant => exact one ((takeValue?_enters constant).closeOr .bracketClose _)
  | objectFields constant => exact one ((takeObjectField?_enters constant).closeOr .braceClose _)

/-- Where a goal finds fault, at most one rule is entered. -/
theorem decline_enters {goal : Goal} {token : Option Token} {enters : List NodeKind}
    {message : String} (h : goal.decline token = .reject enters message) :
    enters.length ≤ 1 := by
  cases goal with
  | fragmentName | value _ | listItems _ =>
    simp only [decline, declineValue] at h
    split at h <;> cases h <;> exact Nat.zero_le 1
  | _ => cases h <;> decide

end Goal

/-! ## Events that enter few rules -/

/-- At every moment no more rules were entered than two for each token taken, and `lead` more. -/
def Modest (lead : Nat) (events : List Event) : Prop :=
  ∀ before, before <+: events → enterCount before ≤ 2 * terminalCount before + lead

structure Frugal (events : List Event) : Prop where
  modest : Modest 2 events
  settled : enterCount events ≤ 2 * terminalCount events

section modest

variable {lead : Nat} {events later : List Event}

/-- What comes behind frugal events may enter as much as it does on its own. -/
theorem Frugal.modest_append (h : Frugal events) (hlater : Modest 2 later) :
    Modest 2 (events ++ later) := by
  intro before hbefore
  rcases isPrefix_append hbefore with hfront | ⟨more, hmore, rfl⟩
  · exact h.modest before hfront
  · have hsettled := h.settled
    have hrest := hlater more hmore
    rw [enterCount_append, terminalCount_append]
    omega

theorem Frugal.append (h : Frugal events) (hlater : Frugal later) : Frugal (events ++ later) where
  modest := h.modest_append hlater.modest
  settled := by
    have hsettled := h.settled
    have hrest := hlater.settled
    rw [enterCount_append, terminalCount_append]
    omega

theorem modest_of_le (h : enterCount events ≤ lead) : Modest lead events := by
  intro before hbefore
  have hle := enterCount_le_of_isPrefix hbefore
  omega

theorem frugal_nil : Frugal [] where
  modest := modest_of_le (Nat.zero_le 2)
  settled := Nat.le_refl 0

theorem frugal_exit (rule : NodeKind) : Frugal [.exit rule] where
  modest := modest_of_le (Nat.zero_le 2)
  settled := Nat.le_refl 0

theorem enterCount_taking (token : Token) (enters : List NodeKind) :
    enterCount (token.taking enters) = enters.length := by
  simp [Token.taking, enterCount_enters]

theorem terminalCount_taking (token : Token) (enters : List NodeKind) :
    terminalCount (token.taking enters) = 1 := by
  simp [Token.taking, terminalCount_enters]

theorem frugal_taking {token : Token} {enters : List NodeKind} (h : enters.length ≤ 2) :
    Frugal (token.taking enters) where
  modest := modest_of_le (by rwa [enterCount_taking])
  settled := by
    rw [enterCount_taking, terminalCount_taking]
    exact h

theorem Modest.enter (h : Modest lead events) (rule : NodeKind) (range : ByteRange)
    (text : String) : Modest (lead + 1) (.enter rule range text :: events) := by
  intro before hbefore
  rcases List.prefix_cons_iff.1 hbefore with rfl | ⟨rest, rfl, hrest⟩
  · exact Nat.zero_le _
  · have hle := h rest hrest
    have henters : enterCount (.enter rule range text :: rest) = enterCount rest + 1 :=
      List.countP_cons_of_pos rfl
    have hterminals : terminalCount (.enter rule range text :: rest) = terminalCount rest :=
      List.countP_cons_of_neg Bool.false_ne_true
    omega

end modest

/-! ## Runs -/

section runs

variable {size : Nat} {rest front : List Token} {goals left : List Goal} {events : List Event}

/-- The steps of a run that has started. -/
theorem Reaches.frugal (h : Reaches rest front goals events left) (hgoals : Underway goals) :
    Frugal events := by
  induction h with
  | refl => exact frugal_nil
  | @take token _ goal _ _ taken _ htake _ ih =>
    have hfirst : goal ≠ .firstDefinition := by
      rintro rfl
      exact hgoals.1 List.mem_cons_self
    have henters := Goal.take?_enters hfirst _ _ _ htake
    exact (frugal_taking henters).append (ih (hgoals.take htake).1)
  | skip _ _ _ ih => exact ih hgoals.tail
  | leave _ ih => exact (frugal_exit _).append (ih hgoals.tail)

/-- Where a run stops it enters one rule at most. -/
theorem Stops.enterCount_le {tokens : List Token} (h : Stops tokens left) :
    enterCount (traceGoals size tokens left).events ≤ 1 := by
  cases h with
  | met => cases tokens <;> simp
  | rejected hreject hnone =>
    rw [traceGoals_reject hreject hnone, enterCount_append, enterCount_enters]
    exact Goal.decline_enters hreject

/-- At every moment of a run no more rules were entered than two for each token taken, and
three more. -/
theorem traceGoals_modest (size : Nat) (tokens : List Token) :
    Modest 3 (traceGoals size tokens documentGoals).events := by
  obtain ⟨front, rest, events, left, rfl, hreaches, hstops⟩ := settles tokens documentGoals
  have hlast : Modest 2 (traceGoals size rest left).events :=
    modest_of_le (Nat.le_trans hstops.enterCount_le (by decide))
  rw [hreaches.trace size, Trace.events_after]
  cases hreaches with
  | refl => exact modest_of_le (Nat.le_trans hstops.enterCount_le (by decide))
  | skip hskip _ _ => cases hskip none
  | @take token front _ _ _ taken events htake h =>
    obtain ⟨inner, hinner, rfl⟩ := Option.map_eq_some_iff.1 htake
    have hstart : Frugal (token.taking inner.enters) :=
      frugal_taking (Goal.takeDefinition?_enters token none inner hinner)
    have hsteps : Reaches rest front (inner.goals ++ [.definitions, .leave .document]) events left :=
      h
    have hrun := hstart.append (hsteps.frugal (underway_of_takeDefinition? hinner))
    exact (hrun.modest_append hlast).enter .document token.range token.text

end runs

end GuardedQuery
