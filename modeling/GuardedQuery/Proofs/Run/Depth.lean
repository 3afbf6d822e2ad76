import GuardedQuery.Proofs.Run.Frugality

/-! # How deep a run gets

Rules nest only so deep for the tokens taken.  Most of the grammar opens one rule for each
token on a way down, a few rules in advance.  Only the brackets of a list type open two, and
before the first of them there are tokens that open none, so that what was ahead is made up
for.  A goal therefore stands below more open rules than its kind allows at no time.

- `depthBound`: the most rules that are open behind so many tokens.
- `Goal.Fits`: how many open rules a goal may stand below.
- `Goal.take?_fits`: a goal that fits asks for goals that fit, and keeps to the bound.
- `Shallow`, `traceGoals_shallow`: so does every run, at every moment.
-/

namespace GuardedQuery

/-- The most rules that may be open behind `taken` tokens: four more than the tokens, or from
the types on two for each token and one. -/
def depthBound (taken : Nat) : Nat :=
  max (taken + 4) (2 * taken + 1)

theorem depthBound_mono {taken later : Nat} (h : taken ≤ later) :
    depthBound taken ≤ depthBound later := by
  simp only [depthBound]
  omega

/-! ## Goals and the rules around them -/

/-- Behind `taken` tokens the goal may stand below `depth` open rules. -/
def Goal.Fits (taken depth : Nat) : Goal → Prop
  | firstDefinition => False
  | leave _ | token _ _ | optionalName | optionalBang | fragmentName => True
  | definitions | optionalVariableDefinitions | variableDefinition | moreVariableDefinitions
  | optionalDefault => depth ≤ taken + 1
  | type => depth + 1 ≤ 2 * taken
  | typeCondition | optionalTypeCondition | namedType | selectionSet | optionalSelectionSet
  | selection | moreSelections | optionalDirectives _ | moreDirectives _ => depth ≤ taken + 2
  | optionalArguments _ | argument _ | moreArguments _ | value _ | listItems _
  | objectFields _ => depth ≤ taken + 3

def FitAbove (taken depth : Nat) : List Goal → Prop
  | [] => True
  | goal :: goals =>
    goal.Fits taken (depth + (closes goals).length) ∧ FitAbove taken depth goals

variable {taken depth : Nat} {goal : Goal} {goals more : List Goal}

theorem Goal.Fits.mono (h : goal.Fits taken depth) {later : Nat} (hle : taken ≤ later) :
    goal.Fits later depth := by
  cases goal <;> simp only [Goal.Fits] at h ⊢ <;> omega

theorem fitAbove_nil : FitAbove taken depth [] := trivial

theorem FitAbove.mono (h : FitAbove taken depth goals) {later : Nat} (hle : taken ≤ later) :
    FitAbove later depth goals := by
  induction goals with
  | nil => trivial
  | cons goal goals ih => exact ⟨h.1.mono hle, ih h.2⟩

theorem fitAbove_append :
    FitAbove taken depth (goals ++ more) ↔
      FitAbove taken (depth + (closes more).length) goals ∧ FitAbove taken depth more := by
  induction goals with
  | nil => simp [FitAbove]
  | cons goal goals ih =>
    have hdepth : depth + (closes (goals ++ more)).length =
        depth + (closes more).length + (closes goals).length := by
      rw [closes_append, List.length_append]
      omega
    rw [List.cons_append, FitAbove, FitAbove, ih, hdepth, and_assoc]

/-! ## Ways to take a token -/

namespace Taking

/-- Below `depth` open rules, whatever token is taken behind `taken` others, the rules entered
at it keep to the bound, and the goals asked for fit behind it. -/
def Fits (taken depth : Nat) (take : Taking) : Prop :=
  ∀ token next result, take token next = some result →
    depth + result.enters.length ≤ depthBound taken ∧ FitAbove (taken + 1) depth result.goals

variable {take other : Taking}

theorem fits_opening {test : Token → Bool} (hdepth : depth ≤ depthBound taken)
    (hgoals : FitAbove (taken + 1) depth goals) : (opening test goals).Fits taken depth := by
  intro token next result htake
  obtain ⟨-, rfl⟩ := of_opening htake
  exact ⟨hdepth, hgoals⟩

theorem Fits.inside (h : take.Fits taken (depth + 1)) (rule : NodeKind) :
    (take.inside rule).Fits taken depth := by
  intro token next result htake
  obtain ⟨inner, hinner, rfl⟩ := Option.map_eq_some_iff.1 htake
  obtain ⟨hdepth, hgoals⟩ := h token next inner hinner
  constructor
  · simp only [Taken.andThen, Taken.within, List.length_cons]
    omega
  · exact fitAbove_append.2 ⟨hgoals, trivial, trivial⟩

theorem fits_rule {test : Token → Bool} {rule : NodeKind} (hdepth : depth + 1 ≤ depthBound taken)
    (hgoals : FitAbove (taken + 1) (depth + 1) goals) :
    ((opening test goals).inside rule).Fits taken depth :=
  (fits_opening hdepth hgoals).inside rule

theorem Fits.andThen (h : take.Fits taken depth) (hcloses : closes goals = [])
    (hgoals : FitAbove (taken + 1) depth goals) : (take.andThen goals).Fits taken depth := by
  intro token next result htake
  obtain ⟨inner, hinner, rfl⟩ := Option.map_eq_some_iff.1 htake
  obtain ⟨hdepth, hfit⟩ := h token next inner hinner
  refine ⟨hdepth, fitAbove_append.2 ⟨?_, hgoals⟩⟩
  rwa [hcloses]

theorem Fits.orElse (h : take.Fits taken depth) (hother : other.Fits taken depth) :
    (take.orElse other).Fits taken depth := by
  intro token next result htake
  rcases of_orElse htake with htake | htake
  · exact h token next result htake
  · exact hother token next result htake

theorem Fits.lookingAhead (h : take.Fits taken depth) (hother : other.Fits taken depth)
    (test : Option Token → Bool) : (take.lookingAhead test other).Fits taken depth := by
  intro token next result htake
  rcases of_lookingAhead htake with htake | htake
  · exact h token next result htake
  · exact hother token next result htake

theorem Fits.closeOr (h : take.Fits taken depth) (close : TokenKind) {more : Goal}
    (hcloses : closes [more] = []) (hmore : FitAbove (taken + 1) depth [more])
    (hdepth : depth ≤ depthBound taken) :
    Fits taken depth fun token next => Goal.closeOr close token more (take token next) := by
  rw [Goal.closeOr_eq]
  exact (fits_opening hdepth fitAbove_nil).orElse (h.andThen hcloses hmore)

end Taking

/-! ## The grammar -/

namespace Goal

open Taking

variable (constant : Bool)

/-- One rule more is open where the bound is not reached yet. -/
theorem depth_lt_depthBound (h : depth ≤ taken + 3) : depth + 1 ≤ depthBound taken := by
  simp only [depthBound]
  omega

theorem takeSelectionSet?_fits (h : depth ≤ taken + 2) :
    Taking.Fits taken depth fun t _ => takeSelectionSet? t := by
  rw [takeSelectionSet?_eq]
  apply fits_rule (depth_lt_depthBound (by omega))
  simp [FitAbove, Goal.Fits, closes]
  omega

theorem takeDefinition?_fits (h : depth ≤ taken + 1) :
    Taking.Fits taken depth fun t _ => takeDefinition? t := by
  rw [takeDefinition?_eq]
  refine Fits.orElse ?fragment (Fits.orElse ?operation ?shorthand)
  case fragment =>
    apply fits_rule (depth_lt_depthBound (by omega))
    simp [FitAbove, Goal.Fits, closes]
    omega
  case operation =>
    apply fits_rule (depth_lt_depthBound (by omega))
    simp [FitAbove, Goal.Fits, closes]
    omega
  case shorthand => exact (takeSelectionSet?_fits (by omega)).inside _

theorem takeVariable?_fits (h : depth ≤ taken + 3) :
    Taking.Fits taken depth fun t _ => takeVariable? t := by
  rw [takeVariable?_eq]
  apply fits_rule (depth_lt_depthBound h)
  simp [FitAbove, Goal.Fits]

/-- Tokens in front of a type have made up for the rules that were opened in advance. -/
theorem takeVariableDefinition?_fits (hstarted : 1 ≤ taken) (h : depth ≤ taken + 1) :
    Taking.Fits taken depth fun t _ => takeVariableDefinition? t := by
  rw [takeVariableDefinition?_eq]
  refine Fits.inside ((takeVariable?_fits (by omega)).andThen rfl ?_) _
  simp [FitAbove, Goal.Fits, closes]
  omega

theorem takeNamedType?_fits (h : depth + 1 ≤ depthBound taken) :
    Taking.Fits taken depth fun t _ => takeNamedType? t := by
  rw [takeNamedType?_eq]
  exact fits_rule h fitAbove_nil

/-- A bracket opens two rules, and behind it there may be two more. -/
theorem takeType?_fits (h : depth + 1 ≤ 2 * taken) :
    Taking.Fits taken depth fun t _ => takeType? t := by
  rw [takeType?_eq]
  have hdepth : depth + 1 + 1 ≤ depthBound taken := by
    simp only [depthBound]
    omega
  refine Fits.inside (Fits.andThen (Fits.orElse ?list ?named) rfl ?bang) _
  case list =>
    apply fits_rule hdepth
    simp [FitAbove, Goal.Fits, closes]
    omega
  case named => exact takeNamedType?_fits hdepth
  case bang => simp [FitAbove, Goal.Fits]

theorem takeTypeCondition?_fits (h : depth ≤ taken + 2) :
    Taking.Fits taken depth fun t _ => takeTypeCondition? t := by
  rw [takeTypeCondition?_eq]
  apply fits_rule (depth_lt_depthBound (by omega))
  simp [FitAbove, Goal.Fits, closes]
  omega

theorem takeArgument?_fits (h : depth ≤ taken + 3) :
    Taking.Fits taken depth fun t _ => takeArgument? constant t := by
  rw [takeArgument?_eq]
  apply fits_rule (depth_lt_depthBound h)
  simp [FitAbove, Goal.Fits, closes]
  omega

theorem takeDirective?_fits (h : depth ≤ taken + 3) :
    Taking.Fits taken depth fun t _ => takeDirective? constant t := by
  rw [takeDirective?_eq]
  apply fits_rule (depth_lt_depthBound h)
  simp [FitAbove, Goal.Fits, closes]
  omega

theorem takeObjectField?_fits (h : depth ≤ taken + 3) :
    Taking.Fits taken depth fun t _ => takeObjectField? constant t := by
  rw [takeObjectField?_eq]
  apply fits_rule (depth_lt_depthBound h)
  simp [FitAbove, Goal.Fits, closes]
  omega

theorem takeLiteral_fits (h : depth ≤ taken + 3) : (takeLiteral constant).Fits taken depth := by
  have hdepth := depth_lt_depthBound h
  have scalar {test : Token → Bool} {rule : NodeKind} :
      ((opening test []).inside rule).Fits taken depth := fits_rule hdepth fitAbove_nil
  have hitems : FitAbove (taken + 1) (depth + 1) [listItems constant] := by
    simp [FitAbove, Goal.Fits, closes]
    omega
  have hfields : FitAbove (taken + 1) (depth + 1) [objectFields constant] := by
    simp [FitAbove, Goal.Fits, closes]
    omega
  have hstring : (((opening (·.kind = .stringLit) []).orElse
      (opening (·.kind = .blockStringLit) [])).inside .stringValue).Fits taken depth :=
    ((fits_opening hdepth fitAbove_nil).orElse (fits_opening hdepth fitAbove_nil)).inside _
  exact scalar.orElse <| scalar.orElse <| hstring.orElse <| scalar.orElse <| scalar.orElse <|
    scalar.orElse <| (fits_rule hdepth hitems).orElse (fits_rule hdepth hfields)

theorem takeValue?_fits (h : depth ≤ taken + 3) :
    Taking.Fits taken depth fun t _ => takeValue? constant t := by
  rw [takeValue?_eq]
  refine Fits.orElse ?_ (takeLiteral_fits constant h)
  cases constant with
  | false => exact takeVariable?_fits h
  | true =>
    intro token next result htake
    cases htake

theorem fitAbove_fieldGoals (h : depth ≤ taken + 2) : FitAbove taken depth fieldGoals := by
  simp [FitAbove, Goal.Fits, closes, fieldGoals]
  omega

theorem takeField?_fits (h : depth ≤ taken + 2) : Taking.Fits taken depth takeField? := by
  rw [takeField?_eq]
  have hgoals : FitAbove (taken + 1) (depth + 1) fieldGoals := fitAbove_fieldGoals (by omega)
  refine Fits.lookingAhead ?aliased ?plain _
  case aliased =>
    have halias : depth + 1 + 1 ≤ depthBound taken := depth_lt_depthBound (by omega)
    refine Fits.inside (Fits.andThen (fits_rule halias ?_) rfl ?_) _
    · simp [FitAbove, Goal.Fits]
    · exact ⟨trivial, hgoals⟩
  case plain => exact fits_rule (depth_lt_depthBound (by omega)) hgoals

theorem takeSpread?_fits (h : depth ≤ taken + 2) : Taking.Fits taken depth takeSpread? := by
  rw [takeSpread?_eq]
  have hdepth : depth + 1 ≤ depthBound taken := depth_lt_depthBound (by omega)
  apply Fits.lookingAhead
  · apply fits_rule hdepth
    simp [FitAbove, Goal.Fits, closes]
    omega
  · apply fits_rule hdepth
    simp [FitAbove, Goal.Fits, closes]
    omega

theorem takeSelection?_fits (h : depth ≤ taken + 2) : Taking.Fits taken depth takeSelection? := by
  rw [takeSelection?_eq]
  exact (takeSpread?_fits h).orElse (takeField?_fits h)

/-- A goal that fits keeps to the bound at any token and asks for goals that fit. -/
theorem take?_fits (hstarted : 1 ≤ taken) (hdepth : depth ≤ depthBound taken)
    (h : goal.Fits taken depth) : Taking.Fits taken depth goal.take? := by
  cases goal with
  | firstDefinition => exact h.elim
  | leave _ =>
    intro token next result htake
    cases htake
  | definitions => exact (takeDefinition?_fits h).andThen rfl ⟨Nat.le_succ_of_le h, trivial⟩
  | token kind what =>
    rw [take?_token]
    exact fits_opening hdepth fitAbove_nil
  | optionalName =>
    rw [take?_optionalName]
    exact fits_opening hdepth fitAbove_nil
  | optionalBang =>
    rw [take?_optionalBang]
    exact fits_opening hdepth fitAbove_nil
  | fragmentName =>
    rw [take?_fragmentName]
    exact fits_opening hdepth fitAbove_nil
  | optionalVariableDefinitions =>
    rw [take?_optionalVariableDefinitions]
    simp only [Goal.Fits] at h
    apply fits_rule (depth_lt_depthBound (by omega))
    simp [FitAbove, Goal.Fits, closes]
    omega
  | variableDefinition => exact takeVariableDefinition?_fits hstarted h
  | moreVariableDefinitions =>
    exact (takeVariableDefinition?_fits hstarted h).closeOr .parenClose rfl
      ⟨h.mono (Nat.le_succ taken), trivial⟩ hdepth
  | type => exact takeType?_fits h
  | optionalDefault =>
    rw [take?_optionalDefault]
    simp only [Goal.Fits] at h
    apply fits_rule (depth_lt_depthBound (by omega))
    simp [FitAbove, Goal.Fits, closes]
    omega
  | typeCondition | optionalTypeCondition => exact takeTypeCondition?_fits h
  | namedType => exact takeNamedType?_fits (depth_lt_depthBound (Nat.le_succ_of_le h))
  | selectionSet | optionalSelectionSet => exact takeSelectionSet?_fits h
  | selection => exact takeSelection?_fits h
  | moreSelections =>
    exact (takeSelection?_fits h).closeOr .braceClose rfl ⟨h.mono (Nat.le_succ taken), trivial⟩
      hdepth
  | optionalDirectives constant =>
    rw [take?_optionalDirectives]
    simp only [Goal.Fits] at h
    refine Fits.inside ((takeDirective?_fits constant (by omega)).andThen rfl ?_) _
    simp [FitAbove, Goal.Fits, closes]
    omega
  | moreDirectives constant =>
    simp only [Goal.Fits] at h
    refine (takeDirective?_fits constant (by omega)).andThen rfl ?_
    simp [FitAbove, Goal.Fits, closes]
    omega
  | optionalArguments constant =>
    rw [take?_optionalArguments]
    apply fits_rule (depth_lt_depthBound h)
    simp only [Goal.Fits] at h
    simp [FitAbove, Goal.Fits, closes]
    omega
  | argument constant => exact takeArgument?_fits constant h
  | moreArguments constant =>
    exact (takeArgument?_fits constant h).closeOr .parenClose rfl
      ⟨h.mono (Nat.le_succ taken), trivial⟩ hdepth
  | value constant => exact takeValue?_fits constant h
  | listItems constant =>
    exact (takeValue?_fits constant h).closeOr .bracketClose rfl
      ⟨h.mono (Nat.le_succ taken), trivial⟩ hdepth
  | objectFields constant =>
    exact (takeObjectField?_fits constant h).closeOr .braceClose rfl
      ⟨h.mono (Nat.le_succ taken), trivial⟩ hdepth

/-- So does a goal that fits and finds fault. -/
theorem decline_fits (hdepth : depth ≤ depthBound taken) (h : goal.Fits taken depth)
    {token : Option Token} {enters : List NodeKind} {message : String}
    (hreject : goal.decline token = .reject enters message) :
    depth + enters.length ≤ depthBound taken := by
  cases goal with
  | firstDefinition => exact h.elim
  | token _ _ | selection | moreSelections =>
    cases hreject
    exact hdepth
  | fragmentName | value _ | listItems _ =>
    simp only [decline, declineValue] at hreject
    split at hreject <;> cases hreject <;> exact hdepth
  | variableDefinition | moreVariableDefinitions | typeCondition | namedType | selectionSet
  | argument _ | moreArguments _ | objectFields _ =>
    cases hreject
    simp only [Goal.Fits] at h
    exact depth_lt_depthBound (by omega)
  | type =>
    cases hreject
    simp only [Goal.Fits] at h
    simp [depthBound]
    omega
  | _ => cases hreject

end Goal

/-! ## Events and the depth at each of them -/

/-- From `depth` open rules behind `taken` tokens on, the bound is kept at every moment. -/
def Shallow (taken : Nat) (depth : Int) (events : List Event) : Prop :=
  ∀ before, before <+: events →
    depth + openRules before ≤ depthBound (taken + terminalCount before)

section shallow

variable {taken : Nat} {depth : Int} {event : Event} {events : List Event}

theorem shallow_nil (h : depth ≤ depthBound taken) : Shallow taken depth [] := by
  intro before hbefore
  obtain rfl := List.prefix_nil.1 hbefore
  simpa using h

theorem Shallow.cons (hdepth : depth ≤ depthBound taken)
    (h : Shallow (taken + terminalCount [event]) (depth + openRules [event]) events) :
    Shallow taken depth (event :: events) := by
  intro before hbefore
  rcases List.prefix_cons_iff.1 hbefore with rfl | ⟨rest, rfl, hrest⟩
  · simpa using hdepth
  · have hle := h rest hrest
    rw [← List.singleton_append, openRules_append, terminalCount_append]
    rwa [Int.add_assoc, Nat.add_assoc] at hle

theorem Shallow.enters (place : Place) {enters : List NodeKind}
    (hdepth : depth + enters.length ≤ depthBound taken)
    (h : Shallow taken (depth + enters.length) events) :
    Shallow taken depth (enters.map place.enter ++ events) := by
  induction enters generalizing depth with
  | nil => simpa using h
  | cons rule enters ih =>
    have hstep : depth + (rule :: enters).length = depth + 1 + enters.length := by
      simp only [List.length_cons]
      omega
    rw [hstep] at hdepth h
    exact Shallow.cons (by omega) (ih hdepth h)

/-- A token that is taken with the rules that start at it. -/
theorem Shallow.taking (token : Token) {enters : List NodeKind}
    (hdepth : depth + enters.length ≤ depthBound taken)
    (h : Shallow (taken + 1) (depth + enters.length) events) :
    Shallow taken depth (token.taking enters ++ events) := by
  rw [Token.taking, List.append_assoc]
  apply Shallow.enters _ hdepth
  apply Shallow.cons hdepth
  simpa using h

end shallow

/-! ## Runs -/

structure WithinDepth (taken : Nat) (goals : List Goal) : Prop where
  started : 1 ≤ taken
  depth_le : (closes goals).length ≤ depthBound taken
  fit : FitAbove taken 0 goals

section runs

variable {size : Nat} {rest front : List Token} {goal : Goal} {goals left : List Goal}
  {events later : List Event} {taken : Nat}

theorem WithinDepth.fits (h : WithinDepth taken (goal :: goals)) :
    goal.Fits taken (closes goals).length := by
  simpa using h.fit.1

theorem WithinDepth.tail (h : WithinDepth taken (goal :: goals)) : WithinDepth taken goals where
  started := h.started
  depth_le := by
    have hdepth := h.depth_le
    rw [← List.singleton_append, closes_append, List.length_append] at hdepth
    omega
  fit := h.fit.2

/-- A goal that takes a token leaves goals that fit behind it. -/
theorem WithinDepth.take (h : WithinDepth taken (goal :: goals)) {token : Token}
    {next : Option Token} {result : Taken} (htake : goal.take? token next = some result)
    (hcloses : (closes (result.goals ++ goals)).length =
      (closes goals).length + result.enters.length) :
    (closes goals).length + result.enters.length ≤ depthBound taken ∧
      WithinDepth (taken + 1) (result.goals ++ goals) := by
  have hlater := Nat.le_succ taken
  obtain ⟨hbound, hasked⟩ :=
    Goal.take?_fits h.started h.tail.depth_le h.fits token next result htake
  refine ⟨hbound, Nat.le_succ_of_le h.started, ?_, fitAbove_append.2 ⟨?_, h.fit.2.mono hlater⟩⟩
  · rw [hcloses]
    exact Nat.le_trans hbound (depthBound_mono hlater)
  · simpa using hasked

/-- A run with goals that fit keeps to the bound, if it does from where it gets to. -/
theorem Reaches.shallow (h : Reaches rest front goals events left) (hgoals : Underway goals)
    (hwithin : WithinDepth taken goals)
    (hlater : WithinDepth (taken + front.length) left →
      Shallow (taken + front.length) (closes left).length later) :
    Shallow taken (closes goals).length (events ++ later) := by
  induction h generalizing taken with
  | refl => exact hlater hwithin
  | @take token front goal goals left result events htake _ ih =>
    obtain ⟨hnext, hcloses⟩ := hgoals.take htake
    have hbelow : closes (goal :: goals) = closes goals := closes_cons_of_take htake
    have hlength : (closes (result.goals ++ goals)).length =
        (closes goals).length + result.enters.length := by
      rw [hcloses, hbelow, List.length_append, List.length_reverse, Nat.add_comm]
    obtain ⟨hbound, hafter⟩ := hwithin.take htake hlength
    -- Behind the token the rules entered at it stay open until their ends are met.
    have hrest := ih hnext hafter (by simpa [Nat.add_assoc, Nat.add_comm 1] using hlater)
    rw [hlength, Int.natCast_add] at hrest
    rw [hbelow, List.append_assoc]
    exact Shallow.taking token (by omega) hrest
  | @skip front goal goals left events hskip _ _ ih =>
    rw [closes_cons_of_skip (hskip none)]
    exact ih hgoals.tail hwithin.tail hlater
  | @leave front rule goals left events _ ih =>
    have hdepth := hwithin.depth_le
    rw [closes_leave, List.length_cons] at hdepth ⊢
    apply Shallow.cons (by omega)
    simpa [Int.add_assoc] using ih hgoals.tail hwithin.tail hlater

/-- Where a run stops it keeps to the bound as well. -/
theorem Stops.shallow {tokens : List Token} (h : Stops tokens left) (size : Nat)
    (hwithin : WithinDepth taken left) :
    Shallow taken (closes left).length (traceGoals size tokens left).events := by
  have hdepth : ((closes left).length : Int) ≤ depthBound taken := Int.ofNat_le.2 hwithin.depth_le
  cases h with
  | met =>
    cases tokens with
    | nil => exact shallow_nil hdepth
    | cons token tokens =>
      rw [traceGoals_cons_nil]
      exact shallow_nil hdepth
  | @rejected goal goals enters message hreject hnone =>
    have hbound := Goal.decline_fits hwithin.tail.depth_le hwithin.fits hreject
    rw [traceGoals_reject hreject hnone, closes_cons_of_reject hreject]
    apply Shallow.enters _ (by omega)
    apply Shallow.cons (by omega)
    apply shallow_nil
    simp
    omega

/-- At every moment of a run no more rules are open than the bound says for the tokens taken. -/
theorem traceGoals_shallow (size : Nat) (tokens : List Token) :
    Shallow 0 0 (traceGoals size tokens documentGoals).events := by
  obtain ⟨front, rest, events, left, rfl, hreaches, hstops⟩ := settles tokens documentGoals
  rw [hreaches.trace size, Trace.events_after]
  cases hreaches with
  | refl =>
    cases hstops with
    | rejected hreject hnone =>
      rw [documentGoals, traceGoals_reject hreject hnone]
      cases hreject
      apply Shallow.enters _ (by decide)
      apply Shallow.cons (by decide)
      exact shallow_nil (by simp [depthBound])
  | skip hskip _ _ => cases hskip none
  | @take token front _ _ _ taken events htake h =>
    obtain ⟨inner, hinner, rfl⟩ := Option.map_eq_some_iff.1 htake
    have hsteps : Reaches rest front (inner.goals ++ [.definitions, .leave .document]) events left :=
      h
    obtain ⟨hbound, hasked⟩ := Goal.takeDefinition?_fits (Nat.le_refl 1) token none inner hinner
    obtain ⟨hcloses, -⟩ := Goal.takeDefinition?_nests token none inner hinner
    have hlength : (closes (inner.goals ++ [.definitions, .leave .document])).length =
        inner.enters.length + 1 := by
      rw [closes_append, hcloses, List.length_append, List.length_reverse]
      rfl
    have hwithin : WithinDepth 1 (inner.goals ++ [.definitions, .leave .document]) := by
      refine ⟨Nat.le_refl 1, ?_, fitAbove_append.2 ⟨hasked, ?_⟩⟩
      · rw [hlength, Nat.add_comm]
        exact Nat.le_trans hbound (depthBound_mono (Nat.zero_le 1))
      · simp [FitAbove, Goal.Fits, closes]
    have hrest := hsteps.shallow (underway_of_takeDefinition? hinner) hwithin (hstops.shallow size)
    rw [hlength] at hrest
    rw [List.append_assoc]
    apply Shallow.taking token
    · simp [Taken.within]
      omega
    · simpa [Taken.within] using hrest

end runs

end GuardedQuery
