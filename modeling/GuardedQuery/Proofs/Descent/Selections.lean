import GuardedQuery.Proofs.Descent.Values

/-! # Types and selections meet their goals

A selection set inside another one has fewer tokens left than the one around it, and so has a
type inside another.

- `Parser.takes_type`, `Parser.takes_typeCondition`: types and conditions on them.
- `Parser.takes_selectionSet`: selections, fields and fragments.
-/

namespace GuardedQuery

namespace Parser

variable {σ : Type} {parser : Parser σ} {p : State σ} {token : Token} {left rest : List Token}
  {goal : Goal} {rule : NodeKind} {constant : Bool} {entry exit fuel : Nat}

/-! ## Types -/

theorem takes_namedType : parser.Takes parser.namedType [.namedType] left entry 256 :=
  takes_startNode_expect (by decide) (fun _ _ _ => rfl) rfl fun _ _ => meets_finishNode (by decide)

section bareType

variable {below : List Goal}

theorem returns_bareType_name (hname : token.kind = .name)
    (hp : parser.AtGoals fuel (token :: rest) (.type :: below) p) :
    parser.Returns (parser.startNode .typeRef) p fun _ q =>
      parser.Returns parser.bareType q fun _ r =>
        ∃ behind, behind.length < (token :: rest).length ∧
          parser.AtGoals 256 behind (.optionalBang :: .leave .typeRef :: below) r := by
  have hinner : Goal.namedType.take? token rest.head? = some (.scalar .namedType) := if_pos hname
  have htake : Goal.type.take? token rest.head? = some
      (((Taken.scalar .namedType).andThen [.optionalBang, .leave .typeRef]).within .typeRef) := by
    simp [Goal.take?, Goal.takeType?, Goal.takeNamedType?, hname]
  refine (AtGoals.startNode_within (by decide) htake hinner rfl hp).mono fun _ q hq => ?_
  rw [bareType]
  refine hq.current fun r hr => ?_
  rw [ahead, hname]
  exact takes_namedType _ r hr

/-- At a bracket the goal of a type enters two rules at once. -/
theorem returns_bareType_list (hbracket : token.kind = .bracketOpen)
    (htype : parser.Takes parser.type [.type] rest 256 255)
    (hp : parser.AtGoals fuel (token :: rest) (.type :: below) p) :
    parser.Returns (parser.startNode .typeRef) p fun _ q =>
      parser.Returns parser.bareType q fun _ r =>
        ∃ behind, behind.length < (token :: rest).length ∧
          parser.AtGoals 256 behind (.optionalBang :: .leave .typeRef :: below) r := by
  have htake : Goal.type.take? token rest.head? = some ⟨[.typeRef, .listType],
      [.type, .token .bracketClose "']'", .leave .listType, .optionalBang, .leave .typeRef]⟩ :=
    if_pos hbracket
  have hbody : parser.Meets (do
      parser.type
      parser.expect .bracketClose "']'"
      parser.finishNode)
      [.type, .token .bracketClose "']'", .leave .listType] rest 256 256 :=
    htype.meets.bind fun _ _ => takes_expect.meets.bind fun _ _ => meets_finishNode (by decide)
  refine (AtGoals.startNode (by decide) htake hp).mono fun _ q hq => ?_
  rw [bareType]
  refine hq.current fun r hr => ?_
  rw [ahead, hbracket]
  refine (hr.startNode (by decide)).bind fun _ s hs => hs.bump.bind fun _ t ht => ?_
  refine (hbody (.optionalBang :: .leave .typeRef :: below) t ht).mono ?_
  rintro _ u ⟨behind, hbehind, hu⟩
  exact ⟨behind, Nat.lt_succ_of_le hbehind, hu⟩

/-- A type in its own rule, up to what may stand behind it. -/
theorem returns_bareType
    (h : ∀ rest, rest.length < left.length → parser.Takes parser.type [.type] rest 256 255)
    (hp : parser.AtGoals fuel left (.type :: below) p) :
    parser.Returns (parser.startNode .typeRef) p fun _ q =>
      parser.Returns parser.bareType q fun _ r =>
        ∃ rest, rest.length < left.length ∧
          parser.AtGoals 256 rest (.optionalBang :: .leave .typeRef :: below) r := by
  rcases head_kind left .name with ⟨token, rest, rfl, hname⟩ | hname
  · exact returns_bareType_name hname hp
  rcases head_kind left .bracketOpen with ⟨token, rest, rfl, hbracket⟩ | hbracket
  · exact returns_bareType_list hbracket (h rest (Nat.lt_succ_self _)) hp
  have hnone : ∀ token ∈ left.head?, ∀ next, Goal.type.take? token next = none := by
    intro token member next
    simp [Goal.take?, Goal.takeType?, Goal.takeNamedType?, hname token member,
      hbracket token member]
  refine ((AtGoals.reject hp rfl hnone).startNode (by decide)).mono fun _ q hq => ?_
  rw [bareType]
  refine hq.current fun r hr => ?_
  split
  · next heq =>
    obtain ⟨token, rest, rfl, hkind⟩ := ahead_eq_token.1 heq
    exact (hname token rfl hkind).elim
  · next heq =>
    obtain ⟨token, rest, rfl, hkind⟩ := ahead_eq_token.1 heq
    exact (hbracket token rfl hkind).elim
  · exact hr.unexpected

end bareType

theorem takes_type : parser.Takes parser.type [.type] left entry 255 := by
  induction hlength : left.length using Nat.strong_induction_on generalizing left entry with
  | _ length ih =>
    subst hlength
    intro below p hp
    rw [type]
    have hend (rest : List Token) :
        parser.Meets (do parser.optionalToken .bang; parser.finishNode)
          [.optionalBang, .leave .typeRef] rest 256 255 :=
      (meets_optionalToken (fun _ => rfl) (fun _ _ => rfl) (by decide)).bind fun _ _ =>
        meets_finishNode (by decide)
    exact (returns_bareType (fun rest hrest => ih _ hrest rfl) hp).bind fun _ q hq =>
      hq.meets fun rest _ => hend rest

theorem takes_typeCondition :
    parser.Takes parser.typeCondition [.typeCondition] left entry 256 := by
  intro below p hp
  rcases head_word left "on" with ⟨token, rest, rfl, hword⟩ | hother
  · have htake : Goal.typeCondition.take? token rest.head? =
        some ⟨[.typeCondition], [.namedType, .leave .typeCondition]⟩ := if_pos hword
    have hbody : parser.Meets (do parser.namedType; parser.finishNode)
        [.namedType, .leave .typeCondition] rest 256 256 :=
      takes_namedType.meets.bind fun _ _ => meets_finishNode (by decide)
    exact (AtGoals.startNode (by decide) htake hp).bind fun _ q hq =>
      (hq.expectWord_take hword).bind fun _ r hr => hbody.behind [] (by decide) htake rfl hr
  · have hnone : ∀ token ∈ left.head?, ∀ next, Goal.typeCondition.take? token next = none := by
      intro token member next
      exact if_neg (by simp [hother token member])
    refine ((AtGoals.reject hp rfl hnone).startNode (by decide)).bind fun _ q hq => ?_
    exact (At.expectWord_reject hq hother).bind fun _ _ => False.elim

theorem meets_optionalTypeCondition (hexit : exit ≤ 256) :
    parser.Meets parser.optionalTypeCondition [.optionalTypeCondition] left (exit + 1) exit := by
  intro below p hp
  refine hp.ifAtWord ?_ ?_
  · rintro q token rest rfl hword hq
    have htake : Goal.typeCondition.take? token rest.head? = some _ := if_pos hword
    exact takes_typeCondition.meets.mono .refl hexit below q (AtGoals.of_take_eq hq htake htake)
  · intro q hother hq
    have hnone : ∀ token ∈ left.head?, ∀ next,
        Goal.optionalTypeCondition.take? token next = none := by
      intro token member next
      exact if_neg (by simp [hother token member])
    exact (gives_pure ()).returns ⟨left, Nat.le_refl _, AtGoals.skip hq (fun _ => rfl) hnone⟩

/-! ## Selections -/

theorem selectionStarts_contains (kind : TokenKind) :
    KindSet.selectionStarts.contains (.token kind) =
      match kind with
      | .name | .spread => true
      | _ => false := by
  cases kind <;> rfl

theorem repeats_selection : Goal.Repeats .braceClose .selection .moreSelections where
  take _ _ := rfl
  decline _ := rfl
  reject _ := ⟨_, _, rfl⟩

section selections

variable (hset : ∀ behind, behind.length ≤ rest.length →
  parser.Takes parser.selectionSet [.selectionSet] behind 0 256)
include hset

theorem meets_optionalSelectionSet (hexit : exit ≤ 256) :
    parser.Meets parser.optionalSelectionSet [.optionalSelectionSet] rest (exit + 1) exit := by
  rw [optionalSelectionSet]
  refine meets_optional (fun _ => rfl) (fun _ _ hkind => if_neg hkind) ?_
  rintro token behind rfl hkind below q hq
  have htake : Goal.selectionSet.take? token behind.head? = some _ := if_pos hkind
  exact (hset _ (Nat.le_refl _)).meets.mono (Nat.zero_le _) hexit below q
    (AtGoals.of_take_eq hq htake htake)

/-- What stands behind the name of a field. -/
theorem meets_afterFieldName :
    parser.Meets (do
      parser.optionalArguments false
      parser.optionalDirectives false
      parser.optionalSelectionSet
      parser.finishNode) Goal.afterFieldName rest 256 253 :=
  (meets_optionalArguments (by decide)).bind fun _ hargs =>
    (meets_optionalDirectives (by decide)).bind fun _ hdirs =>
    (meets_optionalSelectionSet (fun behind hbehind =>
      hset behind (hbehind.trans (hdirs.trans hargs))) (by decide)).bind fun _ _ =>
    meets_finishNode (by decide)

end selections

/-- The alias of a field, if it has one, and its name. -/
theorem returns_fieldName {below : List Goal} (hkind : token.kind = .name)
    (hp : parser.AtGoals fuel (token :: rest) (.selection :: below) p) :
    parser.Returns (parser.startNode .field) p fun _ q =>
      parser.Returns parser.optionalAlias q fun _ r =>
        parser.Returns (parser.expect .name "a field name") r fun _ s =>
          ∃ behind, behind.length ≤ rest.length ∧
            parser.AtGoals 256 behind (Goal.afterFieldName ++ below) s := by
  have hfield (next : Option Token) :
      Goal.selection.take? token next = Goal.takeField? token next := by
    simp [Goal.take?, Goal.takeSelection?, Goal.takeSpread?, hkind]
  -- What the goal takes here depends on the token behind, before anything is entered.
  rcases head_kind rest .colon with ⟨colon, more, rfl, hcolon⟩ | hcolon
  · have htake : Goal.selection.take? token (colon :: more).head? = some ⟨[.field, .fieldAlias],
        [.token .colon "':'", .leave .fieldAlias, .token .name "a field name"] ++
          Goal.afterFieldName⟩ := by
      rw [hfield, Goal.takeField?, if_pos hkind]
      exact if_pos (by simp [hcolon])
    have hbump : (Goal.token .colon "':'").take? colon more.head? = some .only := if_pos hcolon
    have halias : parser.Meets (do parser.bump; parser.finishNode)
        [.token .colon "':'", .leave .fieldAlias] (colon :: more) 256 256 :=
      (takes_bump hbump).meets.bind fun _ _ => meets_finishNode (by decide)
    refine (AtGoals.startNode (by decide) htake hp).mono fun _ q hq => ?_
    refine hq.peekNth 1 fun r hr => ?_
    rw [if_pos (by simp [ahead, hcolon])]
    refine (hr.startNode (by decide)).bind fun _ s hs => hs.bump.bind fun _ t ht => ?_
    refine (halias (.token .name "a field name" :: (Goal.afterFieldName ++ below)) t ht).mono ?_
    rintro _ u ⟨behind, hbehind, hu⟩
    refine (takes_expect _ u hu).mono ?_
    rintro _ v ⟨last, hlast, hv⟩
    exact ⟨last, Nat.le_trans (Nat.le_of_lt hlast) hbehind, hv⟩
  · have htake : Goal.selection.take? token rest.head? =
        some ⟨[.field], Goal.afterFieldName⟩ := by
      rw [hfield, Goal.takeField?, if_pos hkind]
      refine if_neg ?_
      cases rest with
      | nil => simp
      | cons next more => simpa using hcolon
    refine (AtGoals.startNode (by decide) htake hp).mono fun _ q hq => ?_
    refine hq.peekNth 1 fun r hr => ?_
    rw [if_neg]
    · refine (gives_pure ()).returns ((hr.expect_take hkind).mono fun _ s hs => ?_)
      exact ⟨rest, Nat.le_refl _, atGoals_of_taken (by decide) htake hs⟩
    · intro hnext
      obtain ⟨next, more, hrest, hkind⟩ := ahead_eq_token.1 hnext
      exact hcolon next (by simpa using congrArg List.head? hrest) hkind

/-- The name of a fragment behind the dots. -/
theorem takes_fragmentSpread {name : Token} {more : List Token} (hkind : token.kind = .spread)
    (hname : name.kind = .name) (hword : name.isWord "on" = false) :
    parser.Takes (do
      parser.startNode .fragmentSpread
      parser.bump
      parser.bump
      parser.optionalDirectives false
      parser.finishNode) [.selection] (token :: name :: more) entry 253 := by
  have htake : Goal.selection.take? token (name :: more).head? = some ⟨[.fragmentSpread],
      [.fragmentName, .optionalDirectives false, .leave .fragmentSpread]⟩ := by
    simp [Goal.take?, Goal.takeSelection?, Goal.takeSpread?, hkind, hname, hword]
  have htakeName : Goal.fragmentName.take? name more.head? = some .only :=
    if_pos ⟨hname, by simp [hword]⟩
  exact takes_startNode_bump (by decide) htake <|
    (takes_bump htakeName).meets.bind fun _ _ =>
      ((meets_optionalDirectives (by decide)).mono (by decide) .refl).bind fun _ _ =>
        meets_finishNode (by decide)

section selections

variable (hset : ∀ behind, behind.length ≤ rest.length →
  parser.Takes parser.selectionSet [.selectionSet] behind 0 256)
include hset

theorem takes_field (hkind : token.kind = .name) :
    parser.Takes parser.field [.selection] (token :: rest) entry 253 := by
  intro below p hp
  rw [field]
  refine (returns_fieldName hkind hp).bind fun _ q hq => hq.bind fun _ r hr => hr.bind ?_
  rintro _ s ⟨behind, hbehind, hs⟩
  have hset (more : List Token) (hmore : more.length ≤ behind.length) :=
    hset more (hmore.trans hbehind)
  refine (meets_afterFieldName hset below s hs).mono ?_
  rintro _ t ⟨last, hlast, ht⟩
  exact ⟨last, Nat.lt_succ_of_le (hlast.trans hbehind), ht⟩

/-- A fragment that has no name, with a condition on the type or without. -/
theorem takes_inlineFragment (hkind : token.kind = .spread)
    (hname : rest.head?.any (fun name => name.kind = .name && !name.isWord "on") = false) :
    parser.Takes (do
      parser.startNode .inlineFragment
      parser.bump
      parser.optionalTypeCondition
      parser.optionalDirectives false
      parser.selectionSet
      parser.finishNode) [.selection] (token :: rest) entry 256 := by
  have htake : Goal.selection.take? token rest.head? = some ⟨[.inlineFragment],
      [.optionalTypeCondition, .optionalDirectives false, .selectionSet,
        .leave .inlineFragment]⟩ := by
    simp only [Goal.take?, Goal.takeSelection?, Goal.takeSpread?, if_pos hkind, hname]
    rfl
  exact takes_startNode_bump (by decide) htake <|
    (meets_optionalTypeCondition (by decide)).bind fun _ hcondition =>
      (meets_optionalDirectives (by decide)).bind fun _ hdirectives =>
      ((hset _ (hdirectives.trans hcondition)).meets.mono (Nat.zero_le 254) .refl).bind fun _ _ =>
        meets_finishNode (by decide)

theorem takes_spread (hkind : token.kind = .spread) :
    parser.Takes parser.spread [.selection] (token :: rest) (entry + 1) 253 := by
  intro below p hp
  rw [spread]
  refine hp.peekNth 1 fun q hq => ?_
  cases hname : rest.head?.any (fun name => name.kind = .name && !name.isWord "on") with
  | true =>
    cases rest with
    | nil => cases hname
    | cons name more =>
      obtain ⟨hname, hword⟩ : name.kind = .name ∧ name.isWord "on" = false := by
        simpa using hname
      have htext : name.text ≠ "on" := by simpa [Token.isWord, hname] using hword
      rw [if_pos ⟨by simp [ahead, hname], htext⟩]
      exact takes_fragmentSpread hkind hname hword below q hq
  | false =>
    rw [if_neg]
    · exact (takes_inlineFragment hset hkind hname).mono .refl (by decide) below q hq
    · rintro ⟨hnext, htext⟩
      obtain ⟨name, more, hrest, hkindName⟩ := ahead_eq_token.1 hnext
      obtain rfl : rest = name :: more := hrest
      have hplace : name.text ≠ "on" := htext
      simp [hkindName, Token.isWord, hplace] at hname

end selections

theorem takes_selection (hset : ∀ behind, behind.length < left.length →
      parser.Takes parser.selectionSet [.selectionSet] behind 0 256) :
    parser.Takes parser.selection [.selection] left 3 253 := by
  intro below p hp
  rw [selection]
  refine hp.current fun q hq => ?_
  rcases head_kind left .spread with ⟨token, rest, rfl, hspread⟩ | hspread
  · rw [ahead, hspread, if_pos (selectionStarts_contains .spread)]
    refine hq.ifAt ?_ ?_
    · intro r _ _ _ _ hr
      exact takes_spread (fun behind h => hset behind (Nat.lt_succ_of_le h)) hspread below r hr
    · intro r hother _
      exact (hother token rfl hspread).elim
  rcases head_kind left .name with ⟨token, rest, rfl, hname⟩ | hname
  · rw [ahead, hname, if_pos (selectionStarts_contains .name)]
    refine hq.ifAt ?_ ?_
    · rintro r first _ ⟨⟩ hfirst _
      exact (hspread _ rfl hfirst).elim
    · intro r _ hr
      exact takes_field (fun behind h => hset behind (Nat.lt_succ_of_le h)) hname below r hr
  · have hnone : ∀ token ∈ left.head?, ∀ next, Goal.selection.take? token next = none := by
      intro token member next
      simp [Goal.take?, Goal.takeSelection?, Goal.takeSpread?, Goal.takeField?,
        hspread token member, hname token member]
    have hstarts : ¬ KindSet.selectionStarts.contains (ahead left) = true := by
      cases left with
      | nil => decide
      | cons token rest =>
        have hspread := hspread token rfl
        have hname := hname token rfl
        rw [ahead, selectionStarts_contains]
        split <;> simp_all
    rw [if_neg hstarts]
    exact (AtGoals.reject hq rfl hnone).unexpected

theorem takes_selectionSet : parser.Takes parser.selectionSet [.selectionSet] left entry 256 := by
  induction hlength : left.length using Nat.strong_induction_on generalizing left entry with
  | _ length ih =>
    subst hlength
    rw [selectionSet]
    refine takes_startNode_expect (by decide) (fun _ _ _ => rfl) rfl fun rest hrest => ?_
    have hlist : parser.Takes parser.selectionList [.selection, .moreSelections] rest 3 256 :=
      takes_loop repeats_selection (selectionList.eq_1 parser) fun behind hbehind =>
        (takes_selection fun more hmore => ih more.length (by omega) rfl).mono .refl (by decide)
    exact (hlist.mono (by decide) .refl).meets.bind fun _ _ => meets_finishNode (by decide)

end Parser

end GuardedQuery
