import GuardedQuery.Proofs.Grammar.Derivation
import GuardedQuery.Proofs.Run.Taking
import GuardedQuery.Proofs.Run.Trace

/-! # What goals ask for

A stack of goals stands for the rest of a derivation: each goal for the trees of some
patterns, the end of a rule for the exit from a node that is still open.  Whatever the
goal table does with a token, it asks for nothing but derivations of the grammar.

- `Spells`: the tokens and events that meet a stack of goals.
- `Opens`: a way to take a token leads to derivations of a pattern only.
- `take…?_opens`: the productions do.
- `take?_opens`: a goal that takes a token asks for derivations of its patterns only.
-/

namespace GuardedQuery

open Grammar Grammar.Pattern GuardedQuery.Tree

namespace Goal

/-- The patterns whose trees a goal asks for.  The first definition is not one of them
since it opens the document, and neither is the end of a rule. -/
def patterns? : Goal → Option (List Pattern)
  | firstDefinition | leave _ => none
  | definitions => some [definition.many]
  | token kind _ => some [punctuator kind]
  | optionalName => some [name.optional]
  | optionalVariableDefinitions => some [(rule .variableDefinitions false).optional]
  | variableDefinition => some [rule .variableDefinition false]
  | moreVariableDefinitions =>
    some [(rule .variableDefinition false).many, punctuator .parenClose]
  | type => some [rule .typeRef false]
  | optionalBang => some [(punctuator .bang).optional]
  | optionalDefault => some [(rule .defaultValue true).optional]
  | fragmentName => some [Grammar.fragmentName]
  | typeCondition => some [rule .typeCondition false]
  | optionalTypeCondition => some [(rule .typeCondition false).optional]
  | namedType => some [rule .namedType false]
  | selectionSet => some [rule .selectionSet false]
  | optionalSelectionSet => some [(rule .selectionSet false).optional]
  | selection => some [Grammar.selection]
  | moreSelections => some [Grammar.selection.many, punctuator .braceClose]
  | optionalDirectives constant => some [directives constant]
  | moreDirectives constant => some [(rule .directive constant).many]
  | optionalArguments constant => some [(rule .arguments constant).optional]
  | argument constant => some [rule .argument constant]
  | moreArguments constant => some [(rule .argument constant).many, punctuator .parenClose]
  | value constant => some [Grammar.value constant]
  | listItems constant => some [(Grammar.value constant).many, punctuator .bracketClose]
  | objectFields constant =>
    some [(rule .objectField constant).many, punctuator .braceClose]

end Goal

inductive Spells : List Goal → List Token → List Event → Prop where
  | nil : Spells [] [] []
  | leave {rule : NodeKind} {goals : List Goal} {tokens : List Token} {events : List Event}
      (h : Spells goals tokens events) : Spells (.leave rule :: goals) tokens (.exit rule :: events)
  | first {trees : List Tree} {goals : List Goal} {tokens : List Token} {events : List Event}
      (hderives : Derives definition trees) (h : Spells goals tokens events) :
      Spells (.firstDefinition :: goals) (allLeaves trees ++ tokens)
        (entry .document (allLeaves trees) ++ allEvents trees ++ events)
  | goal {goal : Goal} {patterns : List Pattern} {trees : List Tree} {goals : List Goal}
      {tokens : List Token} {events : List Event} (hpatterns : goal.patterns? = some patterns)
      (hderives : Derives (sequence patterns) trees) (h : Spells goals tokens events) :
      Spells (goal :: goals) (allLeaves trees ++ tokens) (allEvents trees ++ events)

theorem Spells.of_append {goals more : List Goal} {tokens : List Token} {events : List Event}
    (h : Spells (goals ++ more) tokens events) :
    ∃ front back before later, tokens = front ++ back ∧ events = before ++ later ∧
      Spells goals front before ∧ Spells more back later := by
  induction goals generalizing tokens events with
  | nil => exact ⟨[], tokens, [], events, rfl, rfl, .nil, h⟩
  | cons goal goals ih =>
    cases h with
    | leave h =>
      obtain ⟨front, back, before, later, rfl, rfl, hgoals, hmore⟩ := ih h
      exact ⟨front, back, _, later, rfl, rfl, .leave hgoals, hmore⟩
    | first hderives h =>
      obtain ⟨front, back, before, later, rfl, rfl, hgoals, hmore⟩ := ih h
      exact ⟨_, back, _, later, by simp, by simp, .first hderives hgoals, hmore⟩
    | goal hpatterns hderives h =>
      obtain ⟨front, back, before, later, rfl, rfl, hgoals, hmore⟩ := ih h
      exact ⟨_, back, _, later, by simp, by simp, .goal hpatterns hderives hgoals, hmore⟩

/-! ## Goals that ask for whole trees -/

def Spelled (goals : List Goal) (patterns : List Pattern) : Prop :=
  ∀ tokens events, Spells goals tokens events →
    ∃ trees, Derives (sequence patterns) trees ∧ tokens = allLeaves trees ∧
      events = allEvents trees

theorem Spelled.nil : Spelled [] [] := by
  intro tokens events h
  cases h
  exact ⟨[], .empty, rfl, rfl⟩

theorem Spelled.goal {goal : Goal} {patterns : List Pattern}
    (h : goal.patterns? = some patterns) : Spelled [goal] patterns := by
  intro tokens events hspells
  cases hspells with
  | leave _ => cases h
  | first _ _ => cases h
  | goal hpatterns hderives hnil =>
    cases hnil
    cases Option.some.inj (h.symm.trans hpatterns)
    exact ⟨_, hderives, by simp, by simp⟩

theorem Spelled.append {goals more : List Goal} {patterns others : List Pattern}
    (h : Spelled goals patterns) (hmore : Spelled more others) :
    Spelled (goals ++ more) (patterns ++ others) := by
  intro tokens events hspells
  obtain ⟨front, back, before, later, rfl, rfl, hgoals, hback⟩ := hspells.of_append
  obtain ⟨trees, hderives, rfl, rfl⟩ := h _ _ hgoals
  obtain ⟨others, hothers, rfl, rfl⟩ := hmore _ _ hback
  exact ⟨trees ++ others, derives_sequence_append.2 ⟨_, _, rfl, hderives, hothers⟩, by simp,
    by simp⟩

theorem Spelled.cons {goal : Goal} {goals : List Goal} {pattern : Pattern}
    {patterns : List Pattern} (h : goal.patterns? = some [pattern])
    (hgoals : Spelled goals patterns) : Spelled (goal :: goals) (pattern :: patterns) :=
  (Spelled.goal h).append hgoals

/-! ## Tokens that open a derivation -/

/-- Whenever a significant token is taken, what is asked for behind it completes a
derivation of the pattern. -/
def Opens (take : Taking) (pattern : Pattern) : Prop :=
  ∀ token next taken, token.isTrivia = false → take token next = some taken →
    ∀ tokens events, Spells taken.goals tokens events →
      ∃ trees, Derives pattern trees ∧ token :: tokens = allLeaves trees ∧
        token.taking taken.enters ++ events = allEvents trees

namespace Opens

variable {take other : Taking} {pattern more : Pattern}

theorem mono (h : Opens take pattern)
    (himp : ∀ trees, Derives pattern trees → Derives more trees) : Opens take more := by
  intro token next taken htrivia htake tokens events hspells
  obtain ⟨trees, hderives, hleaves, hevents⟩ :=
    h token next taken htrivia htake tokens events hspells
  exact ⟨trees, himp trees hderives, hleaves, hevents⟩

theorem token {test : Token → Bool} {terminal : Terminal} {goals : List Goal}
    {patterns : List Pattern} (htest : ∀ token, test token → terminal.Admits token.lexeme)
    (hgoals : Spelled goals patterns) :
    Opens (opening test goals) (sequence (.token terminal :: patterns)) := by
  intro token next taken htrivia htake tokens events hspells
  obtain ⟨hpass, rfl⟩ := Taking.of_opening htake
  obtain ⟨trees, hderives, rfl, rfl⟩ := hgoals _ _ hspells
  refine ⟨.leaf token :: trees, .both (.token (htest token hpass)) hderives, by simp, ?_⟩
  simp [Token.taking, allEvents, Tree.events, htrivia]

theorem inside (rule : NodeKind) (constant : Bool) (h : Opens take pattern)
    (heq : production rule constant = pattern) :
    Opens (take.inside rule) (.rule rule constant) := by
  subst heq
  intro token next taken htrivia htake tokens events hspells
  obtain ⟨inner, hinner, rfl⟩ := Option.map_eq_some_iff.1 htake
  obtain ⟨front, back, before, later, rfl, rfl, hgoals, hleave⟩ := hspells.of_append
  cases hleave with
  | goal hpatterns _ _ => cases hpatterns
  | leave hnil =>
    cases hnil
    obtain ⟨children, hchildren, hleaves, hevents⟩ :=
      h token next inner htrivia hinner front before hgoals
    refine ⟨[.node rule children], .rule hchildren, by simpa using hleaves, ?_⟩
    have hproper := hchildren.proper (production_isInner rule constant)
    simp only [allEvents, Tree.events, ← hevents, ← hleaves, entry, List.append_nil]
    rw [hleaves, significant_allLeaves hproper, ← hleaves]
    simp [Taken.within, Taken.andThen, Token.taking, Place.enter, Place.ofToken]

theorem andThen {goals : List Goal} {patterns : List Pattern} (h : Opens take pattern)
    (hgoals : Spelled goals patterns) :
    Opens (take.andThen goals) (sequence (pattern :: patterns)) := by
  intro token next taken htrivia htake tokens events hspells
  obtain ⟨inner, hinner, rfl⟩ := Option.map_eq_some_iff.1 htake
  obtain ⟨front, back, before, later, rfl, rfl, hfront, hback⟩ := hspells.of_append
  obtain ⟨trees, hderives, hleaves, hevents⟩ :=
    h token next inner htrivia hinner front before hfront
  obtain ⟨others, hothers, rfl, rfl⟩ := hgoals _ _ hback
  refine ⟨trees ++ others, .both hderives hothers, ?_, ?_⟩
  · rw [allLeaves_append, ← hleaves, List.cons_append]
  · rw [allEvents_append, ← hevents, List.append_assoc]
    rfl

theorem orElse (h : Opens take pattern) (hother : Opens other pattern) :
    Opens (take.orElse other) pattern := by
  intro token next taken htrivia htake
  rcases Taking.of_orElse htake with htake | htake
  · exact h token next taken htrivia htake
  · exact hother token next taken htrivia htake

theorem either (h : Opens take pattern) (hother : Opens other more) :
    Opens (take.orElse other) (pattern ||| more) :=
  (h.mono fun _ => .left).orElse (hother.mono fun _ => .right)

theorem lookingAhead {test : Option Token → Bool} (h : Opens take pattern)
    (hother : Opens other pattern) : Opens (take.lookingAhead test other) pattern := by
  intro token next taken htrivia htake
  rcases Taking.of_lookingAhead htake with htake | htake
  · exact h token next taken htrivia htake
  · exact hother token next taken htrivia htake

theorem punctuator {kind : TokenKind} {goals : List Goal} {patterns : List Pattern}
    (hgoals : Spelled goals patterns) :
    Opens (opening (·.kind = kind) goals) (sequence (punctuator kind :: patterns)) :=
  token (by simp [Terminal.Admits]) hgoals

theorem single {test : Token → Bool} {terminal : Terminal}
    (htest : ∀ token, test token → terminal.Admits token.lexeme) :
    Opens (opening test []) (.token terminal) :=
  (token htest .nil).mono fun _ => derives_sequence_singleton.1

end Opens

/-! ## The productions -/

namespace Goal

theorem takeSelectionSet?_opens :
    Opens (fun t _ => takeSelectionSet? t) (rule .selectionSet false) := by
  rw [takeSelectionSet?_eq]
  exact (Opens.punctuator (.cons rfl (.goal rfl))).inside _ false rfl

theorem takeDefinition?_opens : Opens (fun t _ => takeDefinition? t) definition := by
  rw [takeDefinition?_eq]
  refine .orElse ?fragment (.orElse ?keyword ?shorthand)
  case fragment =>
    refine (Opens.inside _ false (.token ?_ ?_) rfl).mono fun _ => .right
    · simp [Terminal.Admits, Token.isWord]
    · exact .cons rfl (.cons rfl (.cons rfl (.goal rfl)))
  case keyword =>
    refine (Opens.inside _ false (.mono (.token ?_ ?_) fun _ => .right) rfl).mono
      fun _ => .left
    · simp [Terminal.Admits, Token.isWord, and_or_left, or_assoc]
    · exact .cons rfl (.cons rfl (.cons rfl (.goal rfl)))
  case shorthand =>
    exact (Opens.inside _ false (takeSelectionSet?_opens.mono fun _ => .left) rfl).mono
      fun _ => .left

theorem takeVariable?_opens : Opens (fun t _ => takeVariable? t) (rule .variableRef false) := by
  rw [takeVariable?_eq]
  exact (Opens.punctuator (.goal rfl)).inside _ false rfl

theorem takeVariableDefinition?_opens :
    Opens (fun t _ => takeVariableDefinition? t) (rule .variableDefinition false) := by
  rw [takeVariableDefinition?_eq]
  exact (takeVariable?_opens.andThen (.cons rfl (.cons rfl (.cons rfl (.goal rfl))))).inside _
    false rfl

theorem takeNamedType?_opens :
    Opens (fun t _ => takeNamedType? t) (rule .namedType false) := by
  rw [takeNamedType?_eq]
  exact (Opens.single (by simp [Terminal.Admits])).inside _ false rfl

theorem takeType?_opens : Opens (fun t _ => takeType? t) (rule .typeRef false) := by
  rw [takeType?_eq]
  refine .inside _ false (.andThen (.orElse ?list ?named) (.goal rfl)) rfl
  case list =>
    exact (Opens.inside _ false (.punctuator (.cons rfl (.goal rfl))) rfl).mono fun _ => .right
  case named => exact takeNamedType?_opens.mono fun _ => .left

theorem takeTypeCondition?_opens :
    Opens (fun t _ => takeTypeCondition? t) (rule .typeCondition false) := by
  rw [takeTypeCondition?_eq]
  refine .inside _ false (.token ?_ (.goal rfl)) rfl
  simp [Terminal.Admits, Token.isWord]

theorem takeArgument?_opens (constant : Bool) :
    Opens (fun t _ => takeArgument? constant t) (rule .argument constant) := by
  rw [takeArgument?_eq]
  exact (Opens.punctuator (.cons rfl (.goal rfl))).inside _ constant rfl

theorem takeDirective?_opens (constant : Bool) :
    Opens (fun t _ => takeDirective? constant t) (rule .directive constant) := by
  rw [takeDirective?_eq]
  exact (Opens.punctuator (.cons rfl (.goal rfl))).inside _ constant rfl

theorem takeObjectField?_opens (constant : Bool) :
    Opens (fun t _ => takeObjectField? constant t) (rule .objectField constant) := by
  rw [takeObjectField?_eq]
  exact (Opens.punctuator (.cons rfl (.goal rfl))).inside _ constant rfl

theorem takeLiteral_opens (constant : Bool) : Opens (takeLiteral constant) (literal constant) := by
  have literal_of {take : Taking} {kind : NodeKind} (hkind : kind ∈ literalRules)
      (h : Opens take (production kind constant)) :
      Opens (take.inside kind) (literal constant) :=
    (h.inside _ constant rfl).mono fun _ h => derives_literal.2 ⟨kind, hkind, h⟩
  refine .orElse ?int (.orElse ?float (.orElse ?string (.orElse ?boolean (.orElse ?null
    (.orElse ?enum (.orElse ?list ?object))))))
  case int => exact literal_of (by decide) (.single (by simp [Terminal.Admits]))
  case float => exact literal_of (by decide) (.single (by simp [Terminal.Admits]))
  case string =>
    refine literal_of (by decide) (.either (.single ?_) (.single ?_))
    · simp [Terminal.Admits]
    · simp [Terminal.Admits]
  case boolean =>
    refine literal_of (by decide) (.single ?_)
    simp [Terminal.Admits, Token.isWord, and_or_left]
  case null =>
    exact literal_of (by decide) (.single (by simp [Terminal.Admits, Token.isWord]))
  case enum => exact literal_of (by decide) (.single (by simp [Terminal.Admits]))
  case list => exact literal_of (by decide) (.punctuator (.goal rfl))
  case object => exact literal_of (by decide) (.punctuator (.goal rfl))

theorem takeValue?_opens (constant : Bool) :
    Opens (fun t _ => takeValue? constant t) (Grammar.value constant) := by
  rw [takeValue?_eq]
  cases constant with
  | false => exact .either takeVariable?_opens (takeLiteral_opens false)
  | true =>
    refine .orElse ?_ (takeLiteral_opens true)
    intro token next taken _ htake
    cases htake

theorem takeField?_opens : Opens takeField? (rule .field false) := by
  rw [takeField?_eq]
  have hgoals : Spelled fieldGoals [(rule .arguments false).optional, directives false,
      (rule .selectionSet false).optional] := .cons rfl (.cons rfl (.goal rfl))
  refine .lookingAhead (.inside .field false ?renamed rfl) (.inside .field false ?plain rfl)
  case renamed =>
    refine .andThen (.mono (.inside .fieldAlias false ?_ rfl) fun _ => .present) (.cons rfl hgoals)
    exact .punctuator (.goal rfl)
  case plain => exact (Opens.punctuator hgoals).mono fun _ => .both .absent

theorem takeSpread?_opens : Opens takeSpread? Grammar.selection := by
  rw [takeSpread?_eq]
  refine .lookingAhead ?spread ?inline
  case spread =>
    exact (Opens.inside _ false (.punctuator (.cons rfl (.goal rfl))) rfl).mono
      fun _ h => derives_selection.2 (.inr (.inl h))
  case inline =>
    exact (Opens.inside _ false (.punctuator (.cons rfl (.cons rfl (.goal rfl)))) rfl).mono
      fun _ h => derives_selection.2 (.inr (.inr h))

theorem takeSelection?_opens : Opens takeSelection? Grammar.selection :=
  takeSpread?_opens.orElse (takeField?_opens.mono fun _ h => derives_selection.2 (.inl h))

/-! ## The table -/

theorem opens_singleton {take : Taking} {pattern : Pattern} (h : Opens take pattern) :
    Opens take (sequence [pattern]) :=
  h.mono fun _ => derives_sequence_singleton.2

theorem opens_optional {take : Taking} {pattern : Pattern} (h : Opens take pattern) :
    Opens take (sequence [pattern.optional]) :=
  opens_singleton (h.mono fun _ => .present)

/-- A goal that comes back behind each round of a repetition. -/
theorem opens_many {take : Taking} {pattern : Pattern} {goal : Goal} (h : Opens take pattern)
    {others : List Pattern} (hgoal : goal.patterns? = some (pattern.many :: others)) :
    Opens (take.andThen [goal]) (sequence (pattern.many :: others)) := by
  refine (h.andThen (.goal hgoal)).mono fun trees hderives => ?_
  obtain ⟨front, _, rfl, hfront, hback⟩ := derives_sequence_cons.1 hderives
  obtain ⟨middle, back, rfl, hmiddle, hback⟩ := derives_sequence_cons.1 hback
  rw [← List.append_assoc]
  exact .both (.more hfront hmiddle) hback

theorem opens_closeOr {take : Taking} {pattern : Pattern} {goal : Goal} {close : TokenKind}
    (h : Opens take pattern) (hgoal : goal.patterns? = some [pattern.many, punctuator close]) :
    Opens (fun t next => closeOr close t goal (take t next))
      (sequence [pattern.many, punctuator close]) := by
  rw [closeOr_eq]
  exact ((Opens.punctuator .nil).mono fun _ => .both .done).orElse
    (opens_many h hgoal)

/-- Whatever token a goal takes, it opens trees of the goal's patterns. -/
theorem take?_opens {goal : Goal} {patterns : List Pattern}
    (h : goal.patterns? = some patterns) : Opens goal.take? (sequence patterns) := by
  cases goal with
  | firstDefinition | leave _ => cases h
  | definitions => cases h; exact opens_many takeDefinition?_opens rfl
  | token kind what =>
    cases h
    rw [take?_token]
    exact .punctuator .nil
  | optionalName =>
    cases h
    rw [take?_optionalName]
    exact opens_optional (.single (by simp [Terminal.Admits]))
  | optionalVariableDefinitions =>
    cases h
    rw [take?_optionalVariableDefinitions]
    exact opens_optional ((Opens.punctuator (.cons rfl (.goal rfl))).inside _ false rfl)
  | variableDefinition => cases h; exact opens_singleton takeVariableDefinition?_opens
  | moreVariableDefinitions =>
    cases h
    exact opens_closeOr takeVariableDefinition?_opens rfl
  | type => cases h; exact opens_singleton takeType?_opens
  | optionalBang =>
    cases h
    rw [take?_optionalBang]
    exact opens_optional (.single (by simp [Terminal.Admits]))
  | optionalDefault =>
    cases h
    rw [take?_optionalDefault]
    exact opens_optional ((Opens.punctuator (.goal rfl)).inside _ true rfl)
  | fragmentName =>
    cases h
    rw [take?_fragmentName]
    refine opens_singleton (.single fun token hpass => ?_)
    simp only [Token.isWord, Bool.and_eq_true, decide_eq_true_eq] at hpass
    simpa [Terminal.Admits, hpass.1] using hpass.2
  | typeCondition => cases h; exact opens_singleton takeTypeCondition?_opens
  | optionalTypeCondition => cases h; exact opens_optional takeTypeCondition?_opens
  | namedType => cases h; exact opens_singleton takeNamedType?_opens
  | selectionSet => cases h; exact opens_singleton takeSelectionSet?_opens
  | optionalSelectionSet => cases h; exact opens_optional takeSelectionSet?_opens
  | selection => cases h; exact opens_singleton takeSelection?_opens
  | moreSelections => cases h; exact opens_closeOr takeSelection?_opens rfl
  | optionalDirectives constant =>
    cases h
    rw [take?_optionalDirectives]
    exact opens_optional (((takeDirective?_opens constant).andThen (.goal rfl)).inside _ constant
      rfl)
  | moreDirectives constant => cases h; exact opens_many (takeDirective?_opens constant) rfl
  | optionalArguments constant =>
    cases h
    rw [take?_optionalArguments]
    exact opens_optional ((Opens.punctuator (.cons rfl (.goal rfl))).inside _ constant rfl)
  | argument constant => cases h; exact opens_singleton (takeArgument?_opens constant)
  | moreArguments constant =>
    cases h
    exact opens_closeOr (takeArgument?_opens constant) rfl
  | value constant => cases h; exact opens_singleton (takeValue?_opens constant)
  | listItems constant => cases h; exact opens_closeOr (takeValue?_opens constant) rfl
  | objectFields constant =>
    cases h
    exact opens_closeOr (takeObjectField?_opens constant) rfl

end Goal

end GuardedQuery
