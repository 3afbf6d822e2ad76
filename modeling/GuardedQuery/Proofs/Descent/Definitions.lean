import GuardedQuery.Proofs.Descent.Selections

/-! # Definitions meet their goals

Whether another definition comes is seen from the next token alone, and what kind of
definition it is as well.

- `Parser.takes_variableDefinitions`: the variables of an operation.
- `Parser.returns_definition`: an operation or a fragment.
- `Parser.takes_definitions`: as many definitions as there are.
- `Parser.ifAtDefinition`: a choice by whether there is one.
-/

namespace GuardedQuery

namespace Parser

variable {σ : Type} {parser : Parser σ} {p : State σ} {token : Token} {left rest : List Token}
  {goal : Goal} {rule : NodeKind} {constant : Bool} {entry exit fuel : Nat}

/-! ## Definitions -/

theorem meets_optionalDefault (hexit : exit ≤ 256) :
    parser.Meets parser.optionalDefault [.optionalDefault] left (exit + 1) exit := by
  refine meets_optional (fun _ => rfl) (fun _ _ hkind => if_neg hkind) ?_
  rintro token rest rfl hkind
  have htake : Goal.optionalDefault.take? token rest.head? =
      some ⟨[.defaultValue], [.value true, .leave .defaultValue]⟩ := if_pos hkind
  have hvalue : parser.Takes (parser.value true) [.value true] rest 256 256 := takes_value
  have hdefault : parser.Takes (do
      parser.startNode .defaultValue
      parser.bump
      parser.value true
      parser.finishNode) [.optionalDefault] (token :: rest) exit 256 :=
    takes_startNode_bump (by decide) htake
      (hvalue.meets.bind fun _ _ => meets_finishNode (by decide))
  exact hdefault.meets.mono .refl hexit

theorem takes_variableDefinition :
    parser.Takes parser.variableDefinition [.variableDefinition] left entry 253 := by
  intro below p hp
  rw [variableDefinition]
  rcases head_kind left .dollar with ⟨token, rest, rfl, hkind⟩ | hother
  · have hvariable : Goal.takeVariable? token = some
        ⟨[.variableRef], [.token .name "a variable name", .leave .variableRef]⟩ := if_pos hkind
    have hinner : (Goal.value false).take? token rest.head? = some
        ⟨[.variableRef], [.token .name "a variable name", .leave .variableRef]⟩ := by
      simp [Goal.take?, Goal.takeValue?, hkind, hvariable]
    have htake : Goal.variableDefinition.take? token rest.head? = some ((Taken.andThen
        ⟨[.variableRef], [.token .name "a variable name", .leave .variableRef]⟩
        [.token .colon "':'", .type, .optionalDefault, .optionalDirectives true,
          .leave .variableDefinition]).within .variableDefinition) := by
      rw [Goal.take?, Goal.takeVariableDefinition?, hvariable, Option.map_some]
    have hbody : parser.Takes (do
        parser.variableRef
        parser.expect .colon "':'"
        parser.type
        parser.optionalDefault
        parser.optionalDirectives true
        parser.finishNode)
        [.value false, .token .colon "':'", .type, .optionalDefault, .optionalDirectives true,
          .leave .variableDefinition] (token :: rest) 255 253 :=
      (takes_variableRef hkind).bind fun _ _ => takes_expect.meets.bind fun _ _ =>
        takes_type.meets.bind fun _ _ => (meets_optionalDefault (by decide)).bind fun _ _ =>
        (meets_optionalDirectives (by decide)).bind fun _ _ => meets_finishNode (by decide)
    refine (AtGoals.startNode_within (by decide) htake hinner rfl hp).bind fun _ q hq => ?_
    refine At.ifAt hq ?_ ?_
    · intro r _ _ _ _ hr
      exact hbody below r hr
    · intro r hother _
      exact (hother token rfl hkind).elim
  · have hnone : ∀ token ∈ left.head?, ∀ next,
        Goal.variableDefinition.take? token next = none := by
      intro token member next
      simp [Goal.take?, Goal.takeVariableDefinition?, Goal.takeVariable?, hother token member]
    refine ((AtGoals.reject hp rfl hnone).startNode (by decide)).bind fun _ q hq => ?_
    refine hq.ifAt ?_ ?_
    · rintro r token rest rfl hkind _
      exact (hother token rfl hkind).elim
    · intro r _ hr
      exact At.unexpected hr

theorem repeats_variableDefinition :
    Goal.Repeats .parenClose .variableDefinition .moreVariableDefinitions where
  take _ _ := rfl
  decline _ := rfl
  reject _ := ⟨_, _, rfl⟩

theorem takes_variableDefinitions (hkind : token.kind = .parenOpen) :
    parser.Takes parser.variableDefinitions [.optionalVariableDefinitions] (token :: rest) entry
      256 := by
  have htake : Goal.optionalVariableDefinitions.take? token rest.head? =
      some ⟨[.variableDefinitions], [.variableDefinition, .moreVariableDefinitions,
        .leave .variableDefinitions]⟩ := if_pos hkind
  have hlist : parser.Takes parser.variableDefinitionList
      [.variableDefinition, .moreVariableDefinitions] rest 3 256 :=
    takes_loop repeats_variableDefinition (variableDefinitionList.eq_1 parser) fun _ _ =>
      takes_variableDefinition.mono .refl (by decide)
  exact takes_startNode_assert (by decide) hkind htake
    ((hlist.mono (by decide) .refl).meets.bind fun _ _ => meets_finishNode (by decide))

theorem meets_optionalVariableDefinitions (hexit : exit ≤ 256) :
    parser.Meets parser.optionalVariableDefinitions [.optionalVariableDefinitions] left (exit + 1)
      exit := by
  refine meets_optional (fun _ => rfl) (fun _ _ hkind => if_neg hkind) ?_
  rintro token rest rfl hkind
  exact (takes_variableDefinitions hkind).meets.mono .refl hexit

theorem takes_fragmentName :
    parser.Takes parser.fragmentName [.fragmentName] left (entry + 2) 256 := by
  intro below p hp
  refine hp.ifAtWord ?_ ?_
  · rintro q token rest rfl hword hq
    have hnone : ∀ first ∈ (token :: rest).head?, ∀ next,
        Goal.fragmentName.take? first next = none := by
      rintro first ⟨⟩ next
      simp [Goal.take?, hword]
    have hdecline : Goal.fragmentName.decline (token :: rest).head? =
        .reject [] "expected a fragment name, 'on' is reserved" := by
      simp [Goal.decline, hword]
    exact (AtGoals.reject hq hdecline hnone).unexpected
  · intro q hword hq
    rcases head_kind left .name with ⟨token, rest, rfl, hkind⟩ | hother
    · have htake : Goal.fragmentName.take? token rest.head? = some .only :=
        if_pos ⟨hkind, by simp [hword token rfl]⟩
      refine ((AtGoals.take hq htake).expect_take hkind).mono ?_
      intro _ r hr
      exact ⟨rest, Nat.lt_succ_self _, hr⟩
    · have hnone : ∀ token ∈ left.head?, ∀ next, Goal.fragmentName.take? token next = none := by
        intro token member next
        simp [Goal.take?, hother token member]
      have hdecline : Goal.fragmentName.decline left.head? =
          .reject [] ("expected " ++ "a fragment name") := by
        cases left with
        | nil => rfl
        | cons token rest => simp [Goal.decline, hword token rfl]
      exact (AtGoals.reject hq hdecline hnone).expect_reject hother

section definition

variable {below : List Goal}

/-- A fragment, and the other definitions are still to come. -/
theorem returns_fragmentDefinition (hword : token.isWord "fragment" = true)
    (hp : parser.AtGoals fuel (token :: rest) (.definitions :: below) p) :
    parser.Returns parser.fragmentDefinition p fun _ q =>
      ∃ left, left.length < (token :: rest).length ∧
        parser.AtGoals 256 left (.definitions :: below) q := by
  have htake : Goal.definitions.take? token rest.head? = some ⟨[.fragmentDefinition],
      [.fragmentName, .typeCondition, .optionalDirectives false, .selectionSet,
        .leave .fragmentDefinition, .definitions]⟩ := by
    simp [Goal.take?, Goal.takeDefinition?, hword, Taken.andThen]
  have hbody : parser.Meets (do
      parser.fragmentName
      parser.typeCondition
      parser.optionalDirectives false
      parser.selectionSet
      parser.finishNode)
      [.fragmentName, .typeCondition, .optionalDirectives false, .selectionSet,
        .leave .fragmentDefinition] rest 256 256 :=
    takes_fragmentName.meets.bind fun _ _ => takes_typeCondition.meets.bind fun _ _ =>
      ((meets_optionalDirectives (Nat.le_refl 254)).mono (by decide) .refl).bind fun _ _ =>
      takes_selectionSet.meets.bind fun _ _ => meets_finishNode (by decide)
  exact (AtGoals.startNode (by decide) htake hp).bind fun _ q hq =>
    (hq.expectWord_take hword).bind fun _ r hr =>
      hbody.behind [.definitions] (by decide) htake rfl hr

/-- An operation that is a selection set alone. -/
theorem returns_shorthand (hkind : token.kind = .braceOpen)
    (hp : parser.AtGoals fuel (token :: rest) (.definitions :: below) p) :
    parser.Returns parser.operationDefinition p fun _ q =>
      ∃ left, left.length < (token :: rest).length ∧
        parser.AtGoals 256 left (.definitions :: below) q := by
  have hset : Goal.takeSelectionSet? token =
      some ⟨[.selectionSet], [.selection, .moreSelections, .leave .selectionSet]⟩ := if_pos hkind
  have htake : Goal.definitions.take? token rest.head? = some ((Taken.andThen
      ⟨[.selectionSet], [.selection, .moreSelections, .leave .selectionSet]⟩
      [.leave .operationDefinition, .definitions]).within .operationDefinition) := by
    simp [Goal.take?, Goal.takeDefinition?, Token.isWord, hkind, hset, Taken.andThen, Taken.within]
  have hinner : Goal.selectionSet.take? token rest.head? = some _ := hset
  have hbody : parser.Takes (do parser.selectionSet; parser.finishNode)
      [.selectionSet, .leave .operationDefinition] (token :: rest) 255 256 :=
    takes_selectionSet.bind fun _ _ => meets_finishNode (by decide)
  refine (AtGoals.startNode_within (by decide) htake hinner rfl hp).bind fun _ q hq => ?_
  refine At.ifAt hq ?_ ?_
  · intro r _ _ _ _ hr
    exact hbody (.definitions :: below) r hr
  · intro r hother _
    exact (hother token rfl hkind).elim

/-- An operation that starts with its keyword. -/
theorem returns_operation (hkind : token.kind = .name)
    (hword : operationWords.contains token.text = true)
    (hp : parser.AtGoals fuel (token :: rest) (.definitions :: below) p) :
    parser.Returns parser.operationDefinition p fun _ q =>
      ∃ left, left.length < (token :: rest).length ∧
        parser.AtGoals 256 left (.definitions :: below) q := by
  have hwords : token.text = "query" ∨ token.text = "mutation" ∨ token.text = "subscription" := by
    simpa [operationWords] using hword
  have htake : Goal.definitions.take? token rest.head? = some ⟨[.operationDefinition],
      [.optionalName, .optionalVariableDefinitions, .optionalDirectives false, .selectionSet,
        .leave .operationDefinition, .definitions]⟩ := by
    rcases hwords with hword | hword | hword <;>
      simp [Goal.take?, Goal.takeDefinition?, Token.isWord, hkind, hword, Taken.andThen]
  have hbody : parser.Meets (do
      parser.optionalToken .name
      parser.optionalVariableDefinitions
      parser.optionalDirectives false
      parser.selectionSet
      parser.finishNode)
      [.optionalName, .optionalVariableDefinitions, .optionalDirectives false, .selectionSet,
        .leave .operationDefinition] rest 256 256 :=
    (meets_optionalToken (fun _ => rfl) (fun _ _ => rfl) (by decide)).bind fun _ _ =>
      (meets_optionalVariableDefinitions (by decide)).bind fun _ _ =>
      (meets_optionalDirectives (Nat.le_succ 253)).bind fun _ _ =>
      takes_selectionSet.meets.bind fun _ _ => meets_finishNode (by decide)
  refine (AtGoals.startNode (by decide) htake hp).bind fun _ q hq => ?_
  refine hq.ifAt ?_ ?_
  · rintro r first _ ⟨⟩ hbrace _
    rw [hkind] at hbrace
    cases hbrace
  · intro r _ hr
    refine hr.currentText fun s hs => ?_
    have htext : operationWords.contains (parser.place (token :: rest)).text = true := hword
    rw [if_pos htext]
    exact hs.bump.bind fun _ t ht => hbody.behind [.definitions] (by decide) htake rfl ht

/-- Where a definition starts. -/
theorem takeDefinition?_isSome (token : Token) :
    (Goal.takeDefinition? token).isSome = true ↔
      token.kind = .braceOpen ∨
        token.kind = .name ∧ (token.text = "fragment" ∨ operationWords.contains token.text) := by
  have hset : (Goal.takeSelectionSet? token).isSome = true ↔ token.kind = .braceOpen := by
    simp [Goal.takeSelectionSet?]
  rw [Goal.takeDefinition?]
  split
  · next hword => simp_all [Token.isWord]
  · next hfragment =>
    split
    · next hword =>
      simp only [Token.isWord, Bool.or_eq_true, Bool.and_eq_true, decide_eq_true_eq, beq_iff_eq]
        at hword
      simp only [Option.isSome_some, operationWords, true_iff]
      rcases hword with (⟨hkind, htext⟩ | ⟨hkind, htext⟩) | ⟨hkind, htext⟩ <;>
        exact .inr ⟨hkind, by simp [htext]⟩
    · next hword =>
      rw [Option.isSome_map, hset]
      simp_all [Token.isWord, operationWords]

theorem returns_definition (hstart : (Goal.takeDefinition? token).isSome = true)
    (hp : parser.AtGoals (fuel + 1) (token :: rest) (.definitions :: below) p) :
    parser.Returns parser.definition p fun _ q =>
      ∃ left, left.length < (token :: rest).length ∧
        parser.AtGoals 256 left (.definitions :: below) q := by
  refine At.ifAtWord hp ?_ ?_
  · rintro q _ _ ⟨⟩ hword hq
    exact returns_fragmentDefinition hword hq
  · intro q hother hq
    rcases (takeDefinition?_isSome token).1 hstart with hkind | ⟨hkind, htext | hword⟩
    · exact returns_shorthand hkind hq
    · -- That name was the other choice already.
      have hfragment := hother token rfl
      simp [Token.isWord, hkind, htext] at hfragment
    · exact returns_operation hkind hword hq

end definition

section isAtDefinition

variable {rules : List NodeKind} {later : Trace}

theorem gives_isAtDefinition (h : parser.At (fuel + 1) rules left later p) :
    ∃ q, Gives parser.isAtDefinition p
      (left.head?.any fun token => (Goal.takeDefinition? token).isSome) q ∧
        parser.At fuel rules left later q := by
  have hcurrent := gives_current h.fuel_pos h.left
  have hburnt := h.skipped.burnt
  obtain ⟨done, hshows, hbuilds, htrace⟩ := hburnt.history
  rcases head_kind left .braceOpen with ⟨token, rest, rfl, hbrace⟩ | hbrace
  · refine ⟨_, hcurrent.bind ?_, hburnt⟩
    have hstart := (takeDefinition?_isSome token).2 (.inl hbrace)
    rw [ahead, hbrace, List.head?_cons, Option.any_some, hstart]
    exact gives_pure _
  rcases head_kind left .name with ⟨token, rest, rfl, hname⟩ | hname
  · refine ⟨_, hcurrent.bind ?_, hburnt.skipped⟩
    have hstart : (Goal.takeDefinition? token).isSome =
        (token.text = "fragment" || operationWords.contains token.text) := by
      rw [Bool.eq_iff_iff, takeDefinition?_isSome]
      simp [hname]
    rw [ahead, hname, List.head?_cons, Option.any_some, hstart]
    exact (gives_currentText hbuilds.fits (fun _ => hbuilds.unread_subset) hburnt.left).bind (gives_pure _)
  · refine ⟨_, hcurrent.bind ?_, hburnt⟩
    have hnone : (left.head?.any fun token => (Goal.takeDefinition? token).isSome) = false := by
      cases left with
      | nil => rfl
      | cons token rest =>
        rw [Bool.eq_false_iff]
        intro hstart
        rcases (takeDefinition?_isSome token).1 hstart with hkind | ⟨hkind, -⟩
        · exact hbrace token rfl hkind
        · exact hname token rfl hkind
    rw [hnone]
    split
    · next heq =>
      obtain ⟨token, rest, rfl, hkind⟩ := ahead_eq_token.1 heq
      exact (hbrace token rfl hkind).elim
    · next heq =>
      obtain ⟨token, rest, rfl, hkind⟩ := ahead_eq_token.1 heq
      exact (hname token rfl hkind).elim
    · exact gives_pure _

/-- A choice by whether a definition starts at the next token. -/
theorem ifAtDefinition {α : Type} {x y : Parsing σ α} {post : α → State σ → Prop}
    (h : parser.At (fuel + 1) rules left later p)
    (hthen : ∀ q token rest, left = token :: rest → (Goal.takeDefinition? token).isSome = true →
      parser.At fuel rules left later q → parser.Returns x q post)
    (helse : ∀ q, (∀ token ∈ left.head?, Goal.takeDefinition? token = none) →
      parser.At fuel rules left later q → parser.Returns y q post) :
    parser.Returns (do if ← parser.isAtDefinition then x else y) p post := by
  obtain ⟨q, hgives, hq⟩ := gives_isAtDefinition h
  refine hgives.returns_bind ?_
  cases left with
  | nil => exact helse q (by simp) hq
  | cons token rest =>
    cases hstart : (Goal.takeDefinition? token).isSome with
    | true =>
      rw [if_pos (by simpa using hstart)]
      exact hthen q token rest rfl hstart hq
    | false =>
      rw [if_neg (by simp [hstart])]
      refine helse q ?_ hq
      rintro first ⟨⟩
      exact Option.not_isSome_iff_eq_none.1 (by simp [hstart])

end isAtDefinition

/-- Where a definition starts, there is one at least. -/
theorem takes_definitions_of (hstart : (Goal.takeDefinition? token).isSome = true)
    (h : ∀ left, left.length ≤ rest.length →
      parser.Meets parser.definitions [.definitions] left 3 2) :
    parser.Takes parser.definitions [.definitions] (token :: rest) 3 2 := by
  intro below p hp
  rw [definitions]
  refine ifAtDefinition hp ?_ ?_
  · rintro q _ _ ⟨⟩ _ hq
    exact (returns_definition hstart hq).meets fun left hleft =>
      (h left (Nat.le_of_lt_succ hleft)).mono (by decide) .refl
  · intro q hother _
    rw [hother token rfl] at hstart
    cases hstart

theorem meets_definitions : parser.Meets parser.definitions [.definitions] left 3 2 := by
  induction hlength : left.length using Nat.strong_induction_on generalizing left with
  | _ length ih =>
    subst hlength
    by_cases hstart : ∃ token rest, left = token :: rest ∧ (Goal.takeDefinition? token).isSome
    · obtain ⟨token, rest, rfl, hstart⟩ := hstart
      exact (takes_definitions_of hstart fun left hleft =>
        ih left.length (Nat.lt_succ_of_le hleft) rfl).meets
    · intro below p hp
      rw [definitions]
      refine ifAtDefinition hp ?_ ?_
      · intro q token rest hleft hsome _
        exact (hstart ⟨token, rest, hleft, hsome⟩).elim
      · intro q hother hq
        have hnone : ∀ token ∈ left.head?, ∀ next, Goal.definitions.take? token next = none := by
          intro token member next
          simp [Goal.take?, hother token member]
        exact (gives_pure ()).returns ⟨left, Nat.le_refl _, AtGoals.skip hq (fun _ => rfl) hnone⟩

theorem takes_definitions (hstart : (Goal.takeDefinition? token).isSome = true) :
    parser.Takes parser.definitions [.definitions] (token :: rest) 3 2 :=
  takes_definitions_of hstart fun _ _ => meets_definitions

end Parser

end GuardedQuery
