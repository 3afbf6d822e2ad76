import GuardedQuery.Proofs.Descent.Meeting

/-! # Values meet their goals

A value takes a token before another one starts inside it, so the proofs go by the number of
tokens that are left.  What holds values repeats without going deeper.

- `Parser.takes_value`: any value.
- `Parser.takes_arguments`, `Parser.meets_optionalDirectives`: arguments and directives.
-/

namespace GuardedQuery

namespace Parser

variable {σ : Type} {parser : Parser σ} {p : State σ} {token : Token} {left rest : List Token}
  {goal : Goal} {rule : NodeKind} {constant : Bool} {entry exit fuel : Nat}

/-! ## Values -/

theorem takes_scalar (hrule : rule ≠ .document)
    (htake : Goal.takeValue? constant token = some (.scalar rule)) :
    parser.Takes (parser.scalar rule) [.value constant] (token :: rest) entry 256 :=
  takes_startNode_bump hrule htake (meets_finishNode hrule)

/-- A variable is a value that is not constant. -/
theorem takes_variableRef (hkind : token.kind = .dollar) :
    parser.Takes parser.variableRef [.value false] (token :: rest) entry 256 := by
  have htake : (Goal.value false).take? token rest.head? =
      some ⟨[.variableRef], [.token .name "a variable name", .leave .variableRef]⟩ := by
    simp [Goal.take?, Goal.takeValue?, Goal.takeVariable?, hkind]
  exact takes_startNode_assert (by decide) hkind htake
    (takes_expect.meets.bind fun _ _ => meets_finishNode (by decide))

theorem valueStarts_contains (kind : TokenKind) :
    KindSet.valueStarts.contains (.token kind) =
      match kind with
      | .dollar | .intLit | .floatLit | .stringLit | .blockStringLit | .name | .bracketOpen
      | .braceOpen => true
      | _ => false := by
  cases kind <;> rfl

/-- What starts no value is no value. -/
theorem reject_value (h : ∀ token ∈ left.head?,
    KindSet.valueStarts.contains (.token token.kind) = false) :
    (Goal.value constant).decline left.head? = .reject [] "expected a value" ∧
      ∀ token ∈ left.head?, ∀ next, (Goal.value constant).take? token next = none := by
  cases left with
  | nil => simp [Goal.decline, Goal.declineValue]
  | cons token rest =>
    have hstarts := h token rfl
    rw [valueStarts_contains] at hstarts
    cases hkind : token.kind <;>
      simp_all [Goal.decline, Goal.declineValue, Goal.take?, Goal.takeValue?]

theorem namedValue_ne_document (text : String) : Goal.namedValue text ≠ .document := by
  rw [Goal.namedValue]
  split
  · decide
  · split <;> decide

/-- A variable that may be there, or is rejected in a constant. -/
theorem takes_variable (hkind : token.kind = .dollar) :
    parser.Takes
      (if constant then parser.unexpected "variables are not allowed in constant values"
        else parser.variableRef) [.value constant] (token :: rest) entry 256 := by
  cases constant with
  | false => exact takes_variableRef hkind
  | true =>
    intro below p hp
    have hnone : ∀ first ∈ (token :: rest).head?, ∀ next,
        (Goal.value true).take? first next = none := by
      rintro first ⟨⟩ next
      simp [Goal.take?, Goal.takeValue?, hkind]
    have hdecline : (Goal.value true).decline (token :: rest).head? =
        .reject [] "variables are not allowed in constant values" := by
      simp [Goal.decline, Goal.declineValue, hkind]
    exact (AtGoals.reject hp hdecline hnone).unexpected

theorem takes_listValue (hkind : token.kind = .bracketOpen)
    (hlist : parser.Takes (parser.listItems constant) [.listItems constant] rest 256 256) :
    parser.Takes (parser.listValue constant) [.value constant] (token :: rest) entry 256 := by
  rw [listValue]
  have htake : (Goal.value constant).take? token rest.head? =
      some ⟨[.listValue], [.listItems constant, .leave .listValue]⟩ := by
    simp [Goal.take?, Goal.takeValue?, hkind]
  exact takes_startNode_bump (by decide) htake
    (hlist.meets.bind fun _ _ => meets_finishNode (by decide))

theorem takes_objectValue (hkind : token.kind = .braceOpen)
    (hobject : parser.Takes (parser.objectFields constant) [.objectFields constant] rest 256 256) :
    parser.Takes (parser.objectValue constant) [.value constant] (token :: rest) entry 256 := by
  rw [objectValue]
  have htake : (Goal.value constant).take? token rest.head? =
      some ⟨[.objectValue], [.objectFields constant, .leave .objectValue]⟩ := by
    simp [Goal.take?, Goal.takeValue?, hkind]
  exact takes_startNode_assert (by decide) hkind htake
    (hobject.meets.bind fun _ _ => meets_finishNode (by decide))

/-- Behind the opening bracket or brace of a value there are fewer tokens than in front of it. -/
theorem takes_value_of
    (hlist : ∀ rest, rest.length < left.length →
      parser.Takes (parser.listItems constant) [.listItems constant] rest 256 256)
    (hobject : ∀ rest, rest.length < left.length →
      parser.Takes (parser.objectFields constant) [.objectFields constant] rest 256 256) :
    parser.Takes (parser.value constant) [.value constant] left (entry + 2) 256 := by
  intro below p hp
  rw [value]
  refine hp.current fun q hq => ?_
  cases hstarts : KindSet.valueStarts.contains (ahead left) with
  | false =>
    have hnone : ∀ token ∈ left.head?,
        KindSet.valueStarts.contains (.token token.kind) = false := by
      rintro token member
      cases left with
      | nil => cases member
      | cons first rest =>
        cases member
        exact hstarts
    obtain ⟨hdecline, hnone⟩ := reject_value hnone
    exact (AtGoals.reject hq hdecline hnone).unexpected
  | true =>
    rw [if_pos rfl]
    cases left with
    | nil => exact absurd hstarts (by decide)
    | cons token rest =>
      refine hq.current fun r hr => ?_
      have hrest : rest.length < (token :: rest).length := Nat.lt_succ_self _
      rw [ahead, valueStarts_contains] at hstarts
      rw [ahead]
      cases hkind : token.kind with
      | dollar => exact takes_variable hkind below r hr
      | intLit | floatLit | stringLit | blockStringLit =>
        exact takes_scalar (by decide) (by simp [Goal.takeValue?, hkind]) below r hr
      | name =>
        refine hr.currentText fun s hs => ?_
        have htake : Goal.takeValue? constant token =
            some (.scalar (Goal.namedValue token.text)) := by simp [Goal.takeValue?, hkind]
        exact takes_scalar (namedValue_ne_document _) htake below s hs
      | bracketOpen => exact takes_listValue hkind (hlist rest hrest) below r hr
      | braceOpen => exact takes_objectValue hkind (hobject rest hrest) below r hr
      | _ =>
        rw [hkind] at hstarts
        cases hstarts

theorem repeats_value (constant : Bool) :
    Goal.Repeats .bracketClose (.value constant) (.listItems constant) where
  take _ _ := rfl
  decline _ := rfl
  reject next := by
    simp only [Goal.decline, Goal.declineValue]
    split
    · exact ⟨_, _, rfl⟩
    · exact ⟨_, _, rfl⟩

theorem takes_listItems_of
    (hvalue : parser.Takes (parser.value constant) [.value constant] left (entry + 2) 256)
    (hlist : ∀ rest, rest.length < left.length →
      parser.Takes (parser.listItems constant) [.listItems constant] rest 256 256) :
    parser.Takes (parser.listItems constant) [.listItems constant] left (entry + 3) 256 := by
  intro below p hp
  rw [listItems]
  refine hp.ifAt ?_ ?_
  · rintro q token rest rfl hkind hq
    have htake : (Goal.listItems constant).take? token rest.head? = some .only := by
      rw [(repeats_value constant).take, Goal.closeOr, if_pos hkind]
    exact takes_bump htake below q hq
  · intro q hother hq
    -- In front of a value, the goal of a list is that of a value with the list behind it.
    rw [List.singleton_append, (repeats_value constant).traceGoals hother,
      (repeats_value constant).closes] at hq
    exact (hvalue (.listItems constant :: below) q hq).meets fun rest hrest =>
      (hlist rest hrest).meets

theorem takes_objectFields_of
    (hvalue : ∀ rest, rest.length < left.length →
      parser.Takes (parser.value constant) [.value constant] rest 256 256)
    (hobject : ∀ rest, rest.length < left.length →
      parser.Takes (parser.objectFields constant) [.objectFields constant] rest 256 256) :
    parser.Takes (parser.objectFields constant) [.objectFields constant] left (entry + 1) 256 := by
  intro below p hp
  rw [objectFields]
  refine hp.ifAt ?_ ?_
  · rintro q token rest rfl hkind hq
    have htake : (Goal.objectFields constant).take? token rest.head? = some .only := by
      simp [Goal.take?, Goal.closeOr, hkind]
    exact takes_bump htake below q hq
  · intro q hother hq
    have htake : ∀ token ∈ left.head?, ∀ next, (Goal.objectFields constant).take? token next =
        if token.kind = .name then
          some ⟨[.objectField], [.token .colon "':'", .value constant, .leave .objectField,
            .objectFields constant]⟩
        else none := by
      intro token member next
      rw [Goal.take?, Goal.closeOr, if_neg (hother token member), Goal.takeObjectField?]
      split <;> rfl
    refine takes_startNode_expect (by decide) htake rfl (fun rest hrest => ?_) below q hq
    exact takes_expect.meets.bind fun behind hbehind =>
      (hvalue behind (Nat.lt_of_le_of_lt hbehind hrest)).meets.bind fun more hmore =>
      (meets_finishNode (by decide)).bind fun last hlast =>
      (hobject last (by omega)).meets

/-- The three procedures that call each other, by the number of tokens left: a value calls the
others behind its bracket, a list calls a value where it stands. -/
theorem takes_values (constant : Bool) (left : List Token) :
    (∀ entry, parser.Takes (parser.value constant) [.value constant] left (entry + 2) 256) ∧
      parser.Takes (parser.listItems constant) [.listItems constant] left 256 256 ∧
      parser.Takes (parser.objectFields constant) [.objectFields constant] left 256 256 := by
  induction hlength : left.length using Nat.strong_induction_on generalizing left with
  | _ length ih =>
    subst hlength
    have hvalues (rest : List Token) (hrest : rest.length < left.length) := ih _ hrest rest rfl
    have hvalue (entry : Nat) :
        parser.Takes (parser.value constant) [.value constant] left (entry + 2) 256 :=
      takes_value_of (fun rest hrest => (hvalues rest hrest).2.1)
        fun rest hrest => (hvalues rest hrest).2.2
    exact ⟨hvalue, takes_listItems_of (hvalue _) fun rest hrest => (hvalues rest hrest).2.1,
      takes_objectFields_of (fun rest hrest => (hvalues rest hrest).1 _)
        fun rest hrest => (hvalues rest hrest).2.2⟩

theorem takes_value :
    parser.Takes (parser.value constant) [.value constant] left (entry + 2) 256 :=
  (takes_values constant left).1 entry

/-! ## Arguments and directives -/

theorem takes_argument :
    parser.Takes (parser.argument constant) [.argument constant] left entry 256 :=
  takes_startNode_expect (by decide) (fun _ _ _ => rfl) rfl fun _ _ =>
    takes_expect.meets.bind fun _ _ => takes_value.meets.bind fun _ _ =>
      meets_finishNode (by decide)

theorem repeats_argument (constant : Bool) :
    Goal.Repeats .parenClose (.argument constant) (.moreArguments constant) where
  take _ _ := rfl
  decline _ := rfl
  reject _ := ⟨_, _, rfl⟩

theorem takes_arguments (hkind : token.kind = .parenOpen) :
    parser.Takes (parser.arguments constant) [.optionalArguments constant] (token :: rest) entry
      256 := by
  have htake : (Goal.optionalArguments constant).take? token rest.head? =
      some ⟨[.arguments], [.argument constant, .moreArguments constant, .leave .arguments]⟩ :=
    if_pos hkind
  have hlist : parser.Takes (parser.argumentList constant)
      [.argument constant, .moreArguments constant] rest 3 256 :=
    takes_loop (repeats_argument constant) (argumentList.eq_1 parser constant) fun _ _ =>
      takes_argument.mono .refl (by decide)
  exact takes_startNode_assert (by decide) hkind htake
    ((hlist.mono (by decide) .refl).meets.bind fun _ _ => meets_finishNode (by decide))

theorem meets_optionalArguments (hexit : exit ≤ 256) :
    parser.Meets (parser.optionalArguments constant) [.optionalArguments constant] left (exit + 1)
      exit := by
  refine meets_optional (fun _ => rfl) (fun _ _ hkind => if_neg hkind) ?_
  rintro token rest rfl hkind
  exact (takes_arguments hkind).meets.mono .refl hexit

/-- One directive, and the others are still to come. -/
theorem returns_directive {below : List Goal} (hkind : token.kind = .atSign)
    (hp : parser.AtGoals fuel (token :: rest) (.moreDirectives constant :: below) p) :
    parser.Returns (parser.directive constant) p fun _ q =>
      ∃ left, left.length < (token :: rest).length ∧
        parser.AtGoals 255 left (.moreDirectives constant :: below) q := by
  have htake : (Goal.moreDirectives constant).take? token rest.head? =
      some ⟨[.directive], [.token .name "a directive name", .optionalArguments constant,
        .leave .directive, .moreDirectives constant]⟩ := by
    simp [Goal.take?, Goal.takeDirective?, hkind, Taken.andThen]
  have hbody : parser.Meets (do
      parser.expect .name "a directive name"
      parser.optionalArguments constant
      parser.finishNode)
      [.token .name "a directive name", .optionalArguments constant, .leave .directive] rest 256
      255 :=
    takes_expect.meets.bind fun _ _ => (meets_optionalArguments (by decide)).bind fun _ _ =>
      meets_finishNode (by decide)
  exact (AtGoals.startNode (by decide) htake hp).bind fun _ q hq => hq.bump.bind fun _ r hr =>
    hbody.behind [.moreDirectives constant] (by decide) htake rfl hr

theorem meets_directiveList (hexit : exit ≤ 254) :
    parser.Meets (parser.directiveList constant) [.moreDirectives constant] left (exit + 1)
      exit := by
  induction hlength : left.length using Nat.strong_induction_on generalizing left with
  | _ length ih =>
    subst hlength
    intro below p hp
    rw [directiveList]
    refine hp.ifAt ?_ ?_
    · rintro q token rest rfl hkind hq
      refine (returns_directive hkind hq).bind ?_
      rintro _ r ⟨left, hleft, hr⟩
      have hmore := ih left.length hleft rfl below r (hr.mono (Nat.succ_le_succ hexit))
      refine hmore.mono ?_
      rintro _ s ⟨last, hlast, hs⟩
      exact ⟨last, Nat.le_trans hlast (Nat.le_of_lt hleft), hs⟩
    · intro q hother hq
      have hnone : ∀ token ∈ left.head?, ∀ next,
          (Goal.moreDirectives constant).take? token next = none := by
        intro token member next
        simp [Goal.take?, Goal.takeDirective?, hother token member]
      exact (gives_pure ()).returns ⟨left, Nat.le_refl _, AtGoals.skip hq (fun _ => rfl) hnone⟩

theorem meets_directives (hkind : token.kind = .atSign) :
    parser.Meets (parser.directives constant) [.optionalDirectives constant] (token :: rest) entry
      254 := by
  obtain ⟨taken, htaken⟩ : ∃ taken, Goal.takeDirective? constant token = some taken :=
    ⟨_, if_pos hkind⟩
  have hinner : (Goal.moreDirectives constant).take? token rest.head? =
      some (taken.andThen [.moreDirectives constant]) := by
    rw [Goal.take?, htaken, Option.map_some]
  have htake : (Goal.optionalDirectives constant).take? token rest.head? =
      some (((taken.andThen [.moreDirectives constant]).andThen [.leave .directives]).within
        .directives) := by
    simp [Goal.take?, htaken, Taken.andThen, Taken.within]
  have hbody : parser.Meets (do parser.directiveList constant; parser.finishNode)
      [.moreDirectives constant, .leave .directives] (token :: rest) 255 254 :=
    (meets_directiveList (by decide)).bind fun _ _ => meets_finishNode (by decide)
  intro below p hp
  exact (AtGoals.startNode_within (by decide) htake hinner rfl hp).bind fun _ q hq =>
    hbody below q (hq.mono (by decide))

theorem meets_optionalDirectives (hexit : exit ≤ 254) :
    parser.Meets (parser.optionalDirectives constant) [.optionalDirectives constant] left
      (exit + 1) exit := by
  refine meets_optional (fun _ => rfl) ?_ ?_
  · intro token next hkind
    simp [Goal.take?, Goal.takeDirective?, hkind]
  · rintro token rest rfl hkind
    exact (meets_directives hkind).mono .refl hexit

end Parser

end GuardedQuery
