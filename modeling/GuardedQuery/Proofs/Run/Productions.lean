import GuardedQuery.Proofs.Run.Reading

/-! # Productions read their derivations

For each production the kinds of token that must not follow: those with which its last
optional part would start, and the colon behind a field that has no alias.

- `take…?_takes`: the production reads every derivation of its rule.
- `…_reads`: the goals do, also where they may be left out.
- `traceGoals_document`: what a run over a document and more tokens does.
-/

namespace GuardedQuery

open Grammar Grammar.Pattern GuardedQuery.Tree

variable {bound : Nat}

namespace Goal

/-! ## Names and types -/

theorem token_reads {kind : TokenKind} {what : String} (hsignificant : kind.isTrivia = false) :
    Reads bound [.token kind what] [punctuator kind] [] := by
  refine .of_takes ?_
  rw [take?_token]
  exact (Takes.punctuator hsignificant .nil).of_sequence

theorem takeVariable?_takes :
    Takes bound (fun t _ => takeVariable? t) (rule .variableRef false) [] := by
  rw [takeVariable?_eq]
  exact .inside (fun _ _ => .punctuator rfl (token_reads rfl)) rfl

theorem takeNamedType?_takes :
    Takes bound (fun t _ => takeNamedType? t) (rule .namedType false) [] :=
  .scalar_token rfl fun _ hadmits _ => if_pos hadmits

theorem optionalBang_reads :
    Reads bound [optionalBang] [(punctuator .bang).optional] [.bang] := by
  have h : Takes bound (take? optionalBang) (punctuator .bang) [] := by
    rw [take?_optionalBang]
    exact (Takes.punctuator rfl .nil).of_sequence
  exact .optional h (fun _ => rfl) fun token next hkind => if_neg hkind

theorem takeType?_takes : Takes bound (fun t _ => takeType? t) (rule .typeRef false) [.bang] := by
  -- The type in a list lies two nodes below the type of the list.
  induction bound using Nat.strongRecOn with
  | ind bound ih =>
    rw [takeType?_eq]
    refine .inside (fun inner hinner => ?_) rfl
    have hlist : Takes inner ((opening (·.kind = .bracketOpen)
        [type, .token .bracketClose "']'"]).inside .listType) (rule .listType false) [] :=
      .inside (fun below hbelow => .punctuator rfl (.cons (.of_takes (ih below (by omega)))
        (token_reads rfl) (by decide) (by decide))) rfl
    have hnamed : Takes inner (((opening (·.kind = .bracketOpen)
        [type, .token .bracketClose "']'"]).inside .listType).orElse fun t _ => takeNamedType? t)
        (rule .namedType false) [] := by
      refine takeNamedType?_takes.orElse_right_first rfl fun token next hkind => ?_
      simp [Taking.inside, opening, hkind]
    exact (hnamed.either hlist.orElse_left).andThen optionalBang_reads (by decide) (by decide)

theorem takeTypeCondition?_takes :
    Takes bound (fun t _ => takeTypeCondition? t) (rule .typeCondition false) [] := by
  rw [takeTypeCondition?_eq]
  refine .inside (fun _ _ => .token rfl ?_ (.of_takes takeNamedType?_takes)) rfl
  simp [Terminal.Admits, Token.isWord]

/-! ## Values -/

variable {constant : Bool}

/-- A name and a value behind a colon, as in arguments and in fields of objects. -/
theorem named_value_reads (h : Takes bound (fun t _ => takeValue? constant t)
    (Grammar.value constant) []) :
    Reads bound [.token .colon "':'", value constant]
      [punctuator .colon, Grammar.value constant] [] :=
  .cons (token_reads rfl) (.of_takes h) (by simp) (by simp)

theorem listValue_takes (h : ∀ inner, inner + 1 = bound →
    Takes inner (fun t _ => takeValue? constant t) (Grammar.value constant) []) :
    Takes bound (fun t _ => takeValue? constant t) (rule .listValue constant) [] := by
  have hlist : Takes bound ((opening (·.kind = .bracketOpen)
      [listItems constant]).inside .listValue) (rule .listValue constant) [] :=
    .inside (fun inner hinner => .punctuator rfl
      (.closeOr (h inner hinner) rfl rfl (by cases constant <;> decide) (by simp))) rfl
  refine hlist.congr_first rfl fun token next hkind => ?_
  simp [takeValue?, Taking.inside, opening, hkind, Taken.andThen, Taken.within]

theorem takeObjectField?_takes (h : ∀ inner, inner + 1 = bound →
    Takes inner (fun t _ => takeValue? constant t) (Grammar.value constant) []) :
    Takes bound (fun t _ => takeObjectField? constant t) (rule .objectField constant) [] := by
  rw [takeObjectField?_eq]
  exact .inside (fun inner hinner => .punctuator rfl (named_value_reads (h inner hinner))) rfl

theorem objectValue_takes (h : ∀ inner, inner < bound →
    Takes inner (fun t _ => takeValue? constant t) (Grammar.value constant) []) :
    Takes bound (fun t _ => takeValue? constant t) (rule .objectValue constant) [] := by
  have hfield (inner : Nat) (hinner : inner + 1 = bound) :
      Takes inner (fun t _ => takeObjectField? constant t) (rule .objectField constant) [] :=
    takeObjectField?_takes fun below hbelow => h below (by omega)
  have hobject : Takes bound ((opening (·.kind = .braceOpen)
      [objectFields constant]).inside .objectValue) (rule .objectValue constant) [] :=
    .inside (fun inner hinner => .punctuator rfl
      (.closeOr (hfield inner hinner) rfl rfl (by simp [Pattern.first, ruleFirst]) (by simp))) rfl
  refine hobject.congr_first rfl fun token next hkind => ?_
  simp [takeValue?, Taking.inside, opening, hkind, Taken.andThen, Taken.within]

theorem stringValue_takes :
    Takes bound (fun t _ => takeValue? constant t) (rule .stringValue constant) [] := by
  refine .scalar fun children hchildren => ?_
  rcases derives_either.1 hchildren with hstring | hstring
  · obtain ⟨token, hadmits, rfl⟩ := derives_token.1 hstring
    have hkind : token.kind = .stringLit := hadmits
    exact ⟨token, rfl, fun _ => by simp [takeValue?, hkind]⟩
  · obtain ⟨token, hadmits, rfl⟩ := derives_token.1 hstring
    have hkind : token.kind = .blockStringLit := hadmits
    exact ⟨token, rfl, fun _ => by simp [takeValue?, hkind]⟩

/-- The literals; those that hold values hold shallower ones. -/
theorem literal_takes (h : ∀ inner, inner < bound →
    Takes inner (fun t _ => takeValue? constant t) (Grammar.value constant) []) :
    Takes bound (fun t _ => takeValue? constant t) (literal constant) [] := by
  refine .either (.either (.either (.either (.either (.either (.either ?int ?float)
    stringValue_takes) ?boolean) ?null) ?enum) ?list) (objectValue_takes h)
  case int =>
    refine .scalar_token rfl fun token hadmits _ => ?_
    have hkind : token.kind = .intLit := hadmits
    simp [takeValue?, hkind]
  case float =>
    refine .scalar_token rfl fun token hadmits _ => ?_
    have hkind : token.kind = .floatLit := hadmits
    simp [takeValue?, hkind]
  case boolean =>
    refine .scalar_token rfl fun token hadmits _ => ?_
    obtain ⟨hkind, hword⟩ := hadmits
    simp_all [takeValue?, namedValue]
  case null =>
    refine .scalar_token rfl fun token hadmits _ => ?_
    obtain ⟨hkind, hword⟩ := hadmits
    simp_all [takeValue?, namedValue]
  case enum =>
    refine .scalar_token rfl fun token hadmits _ => ?_
    obtain ⟨hkind, hword⟩ := hadmits
    simp_all [takeValue?, namedValue]
  case list =>
    exact listValue_takes fun inner hinner => h inner (by omega)

theorem takeValue?_takes :
    Takes bound (fun t _ => takeValue? constant t) (Grammar.value constant) [] := by
  induction bound using Nat.strongRecOn with
  | ind bound ih =>
    have hliteral : Takes bound (fun t _ => takeValue? constant t) (literal constant) [] :=
      literal_takes ih
    cases constant with
    | true => exact hliteral
    | false =>
      refine .either (takeVariable?_takes.congr_first rfl fun token next hkind => ?_) hliteral
      simp [takeValue?, hkind]

/-! ## Arguments and directives -/

theorem takeArgument?_takes :
    Takes bound (fun t _ => takeArgument? constant t) (rule .argument constant) [] := by
  rw [takeArgument?_eq]
  exact .inside (fun _ _ => .punctuator rfl (named_value_reads takeValue?_takes)) rfl

theorem optionalArguments_reads :
    Reads bound [optionalArguments constant] [(rule .arguments constant).optional]
      [.parenOpen] := by
  have h : Takes bound (take? (optionalArguments constant)) (rule .arguments constant) [] := by
    rw [take?_optionalArguments]
    have hmore (inner : Nat) : Reads inner [moreArguments constant]
        [(rule .argument constant).many, punctuator .parenClose] [] :=
      .closeOr takeArgument?_takes rfl rfl (by simp [Pattern.first, ruleFirst]) (by simp)
    exact .inside (fun inner _ => .punctuator rfl
      (.cons (.of_takes takeArgument?_takes) (hmore inner) (by simp) (by simp))) rfl
  refine .optional h (fun _ => rfl) fun token next hkind => ?_
  simp [take?, hkind]

theorem takeDirective?_takes :
    Takes bound (fun t _ => takeDirective? constant t) (rule .directive constant)
      [.parenOpen] := by
  rw [takeDirective?_eq]
  exact .inside (fun _ _ => .punctuator rfl
    (.cons (token_reads rfl) optionalArguments_reads (by simp) (by simp))) rfl

theorem takeDirective?_eq_none {token : Token} (h : token.kind ≠ .atSign) :
    takeDirective? constant token = none :=
  if_neg h

theorem moreDirectives_reads :
    Reads bound [moreDirectives constant] [(rule .directive constant).many]
      [.atSign, .parenOpen] := by
  refine .many takeDirective?_takes rfl (fun _ => rfl) ?_ fun token next hkind => ?_
  · simp [Pattern.first, ruleFirst]
  · exact takeDirective?_eq_none hkind

theorem optionalDirectives_reads :
    Reads bound [optionalDirectives constant] [directives constant] [.atSign, .parenOpen] := by
  have h : Takes bound (take? (optionalDirectives constant)) (rule .directives constant)
      [.atSign, .parenOpen] := by
    rw [take?_optionalDirectives]
    refine .inside (fun inner _ => .andThen takeDirective?_takes moreDirectives_reads ?_ ?_) rfl
    · simp [Pattern.sequence, Pattern.first, ruleFirst]
    · simp
  have hreads : Reads bound [optionalDirectives constant] [directives constant]
      [.atSign, .atSign, .parenOpen] :=
    .optional h (fun _ => rfl) fun token next hkind => by
      simp [take?, takeDirective?_eq_none hkind]
  exact hreads.weaken (by simp)

/-! ## Variable definitions -/

theorem optionalDefault_reads :
    Reads bound [optionalDefault] [(rule .defaultValue true).optional] [.equals] := by
  have h : Takes bound (take? optionalDefault) (rule .defaultValue true) [] := by
    rw [take?_optionalDefault]
    exact .inside (fun _ _ => .punctuator rfl (.of_takes takeValue?_takes)) rfl
  refine .optional h (fun _ => rfl) fun token next hkind => ?_
  simp [take?, hkind]

theorem takeVariableDefinition?_takes :
    Takes bound (fun t _ => takeVariableDefinition? t) (rule .variableDefinition false)
      [.bang, .equals, .atSign, .parenOpen] := by
  rw [takeVariableDefinition?_eq]
  refine .inside (fun inner _ => .andThen takeVariable?_takes ?_ (by simp) (by simp)) rfl
  have hdefault : Reads inner [optionalDefault, optionalDirectives true]
      [(rule .defaultValue true).optional, directives true] [.equals, .atSign, .parenOpen] :=
    .cons optionalDefault_reads (optionalDirectives_reads.weaken (by decide)) (by decide)
      (by decide)
  have htype : Reads inner [type, optionalDefault, optionalDirectives true]
      [rule .typeRef false, (rule .defaultValue true).optional, directives true]
      [.bang, .equals, .atSign, .parenOpen] :=
    .cons (.of_takes takeType?_takes) (hdefault.weaken (by decide)) (by decide) (by decide)
  exact .cons (token_reads rfl) htype (by decide) (by decide)

theorem optionalVariableDefinitions_reads :
    Reads bound [optionalVariableDefinitions] [(rule .variableDefinitions false).optional]
      [.parenOpen] := by
  have h : Takes bound (take? optionalVariableDefinitions) (rule .variableDefinitions false)
      [] := by
    rw [take?_optionalVariableDefinitions]
    have hmore (inner : Nat) : Reads inner [moreVariableDefinitions]
        [(rule .variableDefinition false).many, punctuator .parenClose] [] :=
      .closeOr takeVariableDefinition?_takes rfl rfl (by decide) (by decide)
    exact .inside (fun inner _ => .punctuator rfl
      (.cons (.of_takes takeVariableDefinition?_takes) (hmore inner) (by decide) (by decide))) rfl
  refine .optional h (fun _ => rfl) fun token next hkind => ?_
  simp [take?, hkind]

/-! ## Selections -/

def afterField : List TokenKind := [.colon, .parenOpen, .atSign, .braceOpen]

theorem optionalSelectionSet_reads
    (h : Takes bound (fun t _ => takeSelectionSet? t) (rule .selectionSet false) []) :
    Reads bound [optionalSelectionSet] [(rule .selectionSet false).optional] [.braceOpen] :=
  .optional h (fun _ => rfl) fun _ _ hkind => if_neg hkind

theorem fieldGoals_reads
    (h : Takes bound (fun t _ => takeSelectionSet? t) (rule .selectionSet false) []) :
    Reads bound fieldGoals [(rule .arguments false).optional, directives false,
      (rule .selectionSet false).optional] afterField := by
  have hdirectives : Reads bound [optionalDirectives false, optionalSelectionSet]
      [directives false, (rule .selectionSet false).optional] afterField :=
    .cons optionalDirectives_reads ((optionalSelectionSet_reads h).weaken (by decide)) (by decide)
      (by decide)
  exact .cons optionalArguments_reads hdirectives (by decide) (by decide)

theorem takeField?_takes (h : ∀ inner, inner + 1 = bound →
    Takes inner (fun t _ => takeSelectionSet? t) (rule .selectionSet false) []) :
    Takes bound takeField? (rule .field false) afterField := by
  rw [takeField?_eq, ← Taking.inside_lookingAhead]
  refine .inside (fun inner hinner => .optional_cons ?plain ?renamed) rfl
  case plain =>
    refine (Takes.punctuator rfl (fieldGoals_reads (h inner hinner))).congr
      fun trees more hderives havoids token rest hleaves => ?_
    -- Neither what belongs to the field nor what follows it starts with a colon.
    obtain ⟨first, back, rfl, _, hback⟩ := derives_sequence_token.1 hderives
    obtain ⟨rfl, rfl⟩ : first = token ∧ allLeaves back = rest := by simpa using hleaves
    have hnext : Avoids [.colon] (allLeaves back ++ more) :=
      avoids_append hback (by decide) (by decide) havoids
    have htest : (allLeaves back ++ more).head?.any (·.kind = .colon) = false :=
      hnext.any_eq_false (by simp)
    simp only [Taking.lookingAhead, htest, Bool.false_eq_true, if_false]
  case renamed =>
    have halias : Takes inner ((opening (·.kind = .name) [.token .colon "':'"]).inside .fieldAlias)
        (rule .fieldAlias false) [] :=
      .inside (fun _ _ => .punctuator rfl (token_reads rfl)) rfl
    have hname : Reads inner (.token .name "a field name" :: fieldGoals)
        [name, (rule .arguments false).optional, directives false,
          (rule .selectionSet false).optional] afterField :=
      .cons (token_reads rfl) (fieldGoals_reads (h inner hinner)) (by simp) (by simp)
    refine (halias.andThen hname (by simp) (by simp)).congr
      fun trees more hderives _ token rest hleaves => ?_
    obtain ⟨_, back, rfl, hrule, _⟩ := derives_sequence_cons.1 hderives
    obtain ⟨children, hchildren, rfl⟩ := derives_rule.1 hrule
    obtain ⟨first, _, rfl, _, hcolon⟩ := derives_sequence_token.1 hchildren
    obtain ⟨colon, hadmits, rfl⟩ := derives_token.1 (derives_sequence_singleton.1 hcolon)
    obtain ⟨rfl, rfl⟩ : first = token ∧ colon :: allLeaves back = rest := by simpa using hleaves
    have hkind : colon.kind = .colon := hadmits
    simp [Taking.lookingAhead, hkind]

theorem fragmentName_reads : Reads bound [fragmentName] [Grammar.fragmentName] [] := by
  refine .of_takes (.of_sequence ?_)
  rw [take?_fragmentName]
  refine .token rfl (fun token hadmits => ?_) .nil
  obtain ⟨hkind, hword⟩ := hadmits
  simp_all [Token.isWord]

theorem fragmentSpread_takes :
    Takes bound takeSpread? (rule .fragmentSpread false) [.atSign, .parenOpen] := by
  have hspread : Takes bound ((opening (·.kind = .spread)
      [fragmentName, optionalDirectives false]).inside .fragmentSpread)
      (rule .fragmentSpread false) [.atSign, .parenOpen] :=
    .inside (fun inner _ => .punctuator rfl (.cons fragmentName_reads optionalDirectives_reads
      (by decide) (by decide))) rfl
  rw [takeSpread?_eq]
  refine hspread.congr fun trees more hderives _ token rest hleaves => ?_
  obtain ⟨children, hchildren, rfl⟩ := derives_rule.1 hderives
  obtain ⟨first, back, rfl, _, hback⟩ := derives_sequence_token.1 hchildren
  obtain ⟨second, tail, rfl, hadmits, _⟩ := derives_sequence_token.1 hback
  obtain ⟨rfl, rfl⟩ : first = token ∧ second :: allLeaves tail = rest := by
    simpa using hleaves
  simp_all [Taking.lookingAhead, Terminal.Admits, Token.isWord]

theorem inlineGoals_reads
    (h : Takes bound (fun t _ => takeSelectionSet? t) (rule .selectionSet false) []) :
    Reads bound [optionalTypeCondition, optionalDirectives false, selectionSet]
      [(rule .typeCondition false).optional, directives false, rule .selectionSet false] [] := by
  have hset : Reads bound [optionalDirectives false, selectionSet]
      [directives false, rule .selectionSet false] [] :=
    .cons optionalDirectives_reads (.of_takes h) (by decide) (by decide)
  have hcondition : Reads bound [optionalTypeCondition]
      [(rule .typeCondition false).optional] [.name] :=
    .optional takeTypeCondition?_takes (fun _ => rfl) fun token next hkind => by
      simp [take?, takeTypeCondition?, Token.isWord, hkind]
  exact .cons hcondition hset (by decide) (by decide)

/-- Behind the dots of an inline fragment stands no name but `on`. -/
theorem head_inline {trees : List Tree} {more : List Token}
    (h : Derives (sequence [(rule .typeCondition false).optional, directives false,
      rule .selectionSet false]) trees) :
    (allLeaves trees ++ more).head?.any
      (fun name => name.kind = .name && !name.isWord "on") = false := by
  obtain ⟨front, tail, rfl, hcondition, htail⟩ := derives_sequence_cons.1 h
  rcases derives_optional.1 hcondition with rfl | hpresent
  · -- Directives and selections start with no name.
    have hnext : Avoids [.name] (allLeaves tail ++ more) :=
      avoids_append htail (by decide) (by decide) avoids_nil
    refine hnext.any_eq_false fun next htest => ?_
    simp only [Bool.and_eq_true, decide_eq_true_eq] at htest
    exact htest.1
  · obtain ⟨inner, hinner, rfl⟩ := derives_rule.1 hpresent
    obtain ⟨on, named, rfl, ⟨hkind, hword⟩, _⟩ := derives_sequence_token.1 hinner
    simp_all [Token.isWord]

theorem inlineFragment_takes (h : ∀ inner, inner + 1 = bound →
    Takes inner (fun t _ => takeSelectionSet? t) (rule .selectionSet false) []) :
    Takes bound takeSpread? (rule .inlineFragment false) [] := by
  have hinline : Takes bound ((opening (·.kind = .spread) [optionalTypeCondition,
      optionalDirectives false, selectionSet]).inside .inlineFragment)
      (rule .inlineFragment false) [] :=
    .inside (fun inner hinner => .punctuator rfl (inlineGoals_reads (h inner hinner))) rfl
  rw [takeSpread?_eq]
  refine hinline.congr fun trees more hderives _ token rest hleaves => ?_
  obtain ⟨children, hchildren, rfl⟩ := derives_rule.1 hderives
  obtain ⟨first, back, rfl, _, hback⟩ := derives_sequence_token.1 hchildren
  obtain ⟨rfl, rfl⟩ : first = token ∧ allLeaves back = rest := by simpa using hleaves
  simp only [Taking.lookingAhead, head_inline hback, Bool.false_eq_true, if_false]

theorem takeSelection?_takes (h : ∀ inner, inner + 1 = bound →
    Takes inner (fun t _ => takeSelectionSet? t) (rule .selectionSet false) []) :
    Takes bound takeSelection? Grammar.selection afterField := by
  rw [takeSelection?_eq]
  have hfield : Takes bound (Taking.orElse takeSpread? takeField?) (rule .field false)
      afterField := by
    refine (takeField?_takes h).orElse_right_first rfl fun token next hkind => ?_
    simp [takeSpread?, hkind]
  have hspread : Takes bound takeSpread?
      (rule .fragmentSpread false ||| rule .inlineFragment false) afterField :=
    .either (fragmentSpread_takes.weaken (by decide)) ((inlineFragment_takes h).weaken (by simp))
  intro trees hderives
  rcases derives_selection.1 hderives with hderives | hderives
  · exact hfield trees hderives
  · exact hspread.orElse_left trees (derives_either.2 hderives)

theorem takeSelectionSet?_takes :
    Takes bound (fun t _ => takeSelectionSet? t) (rule .selectionSet false) [] := by
  induction bound using Nat.strongRecOn with
  | ind bound ih =>
    rw [takeSelectionSet?_eq]
    refine .inside (fun inner hinner => .punctuator rfl ?_) rfl
    have hselection : Takes inner takeSelection? Grammar.selection afterField :=
      takeSelection?_takes fun below hbelow => ih below (by omega)
    have hmore : Reads inner [moreSelections]
        [Grammar.selection.many, punctuator .braceClose] [] :=
      .closeOr hselection rfl rfl (by decide) (by decide)
    exact .cons (.of_takes hselection) hmore (by decide) (by decide)

/-! ## Definitions -/

theorem optionalName_reads : Reads bound [optionalName] [name.optional] [.name] := by
  have h : Takes bound (take? optionalName) name [] := by
    rw [take?_optionalName]
    exact (Takes.punctuator rfl .nil).of_sequence
  exact .optional h (fun _ => rfl) fun token next hkind => if_neg hkind

theorem operationGoals_reads :
    Reads bound [optionalName, optionalVariableDefinitions, optionalDirectives false, selectionSet]
      [name.optional, (rule .variableDefinitions false).optional, directives false,
        rule .selectionSet false] [] := by
  have hset : Reads bound [optionalDirectives false, selectionSet]
      [directives false, rule .selectionSet false] [] :=
    .cons optionalDirectives_reads (.of_takes takeSelectionSet?_takes) (by decide) (by decide)
  have hvariables : Reads bound
      [optionalVariableDefinitions, optionalDirectives false, selectionSet]
      [(rule .variableDefinitions false).optional, directives false, rule .selectionSet false]
      [] :=
    .cons optionalVariableDefinitions_reads hset (by decide) (by decide)
  exact .cons optionalName_reads hvariables (by decide) (by decide)

theorem fragmentGoals_reads :
    Reads bound [fragmentName, typeCondition, optionalDirectives false, selectionSet]
      [Grammar.fragmentName, rule .typeCondition false, directives false,
        rule .selectionSet false] [] := by
  have hset : Reads bound [optionalDirectives false, selectionSet]
      [directives false, rule .selectionSet false] [] :=
    .cons optionalDirectives_reads (.of_takes takeSelectionSet?_takes) (by decide) (by decide)
  have hcondition : Reads bound [typeCondition, optionalDirectives false, selectionSet]
      [rule .typeCondition false, directives false, rule .selectionSet false] [] :=
    .cons (.of_takes takeTypeCondition?_takes) hset (by decide) (by decide)
  exact .cons fragmentName_reads hcondition (by decide) (by decide)

/-- The first token of an operation is a brace or one of the keywords. -/
theorem isWord_fragment_eq_false {trees : List Tree}
    (h : Derives (rule .operationDefinition false) trees) {token : Token}
    (member : token ∈ (allLeaves trees).head?) : token.isWord "fragment" = false := by
  obtain ⟨children, hchildren, rfl⟩ := derives_rule.1 h
  rw [allLeaves_cons, leaves_node, allLeaves_nil, List.append_nil] at member
  rcases derives_either.1 hchildren with hset | hkeyword
  · have hkind : token.kind = .braceOpen := first_kind rfl hset member
    simp [Token.isWord, hkind]
  · obtain ⟨first, rest, rfl, ⟨_, hword⟩, _⟩ := derives_sequence_token.1 hkeyword
    obtain rfl : first = token := by simpa using member
    simp only [Token.lexeme_text, List.mem_cons, List.not_mem_nil, or_false] at hword
    rcases hword with hword | hword | hword <;> simp [Token.isWord, hword]

theorem takeDefinition?_takes :
    Takes bound (fun t _ => takeDefinition? t) definition [] := by
  rw [takeDefinition?_eq, ← Taking.inside_orElse]
  refine .either ?operation ?fragment
  case operation =>
    refine .orElse_right (.inside (fun inner _ => .either ?shorthand ?keyword) rfl) ?_
    case shorthand =>
      refine takeSelectionSet?_takes.orElse_right_first rfl fun token next hkind => ?_
      simp [opening, Token.isWord, hkind]
    case keyword =>
      refine .orElse_left (.token rfl (fun token hadmits => ?_) operationGoals_reads)
      simpa [Terminal.Admits, Token.isWord, and_or_left, or_assoc] using hadmits
    intro trees hderives token member next
    simp [Taking.inside, opening, isWord_fragment_eq_false hderives member]
  case fragment =>
    refine .orElse_left (.inside (fun inner _ => .token rfl (fun token hadmits => ?_)
      fragmentGoals_reads) rfl)
    simpa [Terminal.Admits, Token.isWord] using hadmits

end Goal

/-! ## Documents -/

/-- Behind the trees of a document a run stops, unless a further definition follows. -/
theorem traceGoals_document {children : List Tree}
    (h : Derives (production .document false) children) {more : List Token}
    (hmore : ∀ token ∈ more.head?, Goal.takeDefinition? token = none) (size : Nat) :
    traceGoals size (allLeaves children ++ more) documentGoals =
      (traceGoals size more []).after (allEvents [.node .document children]) := by
  obtain ⟨bound, hbound⟩ := h.within
  obtain ⟨first, others, rfl, hfirst, hothers⟩ := derives_sequence_cons.1 h
  rw [derives_sequence_singleton] at hothers
  rw [List.forall_mem_append] at hbound
  obtain ⟨token, rest, taken, hleaves, htake, hrun⟩ :=
    Goal.takeDefinition?_takes first hfirst hbound.1 (allLeaves others ++ more) avoids_nil
  have htake : Goal.takeDefinition? token = some taken := htake
  have htakeFirst : Goal.take? .firstDefinition token (rest ++ (allLeaves others ++ more)).head? =
      some (taken.within .document) := by
    rw [Goal.take?, htake]
    rfl
  have hentry : entry .document (allLeaves first ++ allLeaves others) =
      [(Place.ofToken token).enter .document] := by
    rw [← allLeaves_append]
    exact entry_allLeaves .document (h.proper rfl) (by rw [allLeaves_append, hleaves]; rfl)
  -- The first definition opens the document; all others are rounds of one goal.
  have hrounds : traceGoals size (allLeaves others ++ more) [.definitions, .leave .document] =
      (traceGoals size more [.definitions, .leave .document]).after (allEvents others) :=
    Reads.rounds Goal.takeDefinition?_takes (fun _ _ _ => rfl) (by simp) hothers hbound.2
      avoids_nil size [.leave .document]
  have hlast : traceGoals size more [.definitions, .leave .document] =
      (traceGoals size more []).after [.exit .document] := by
    rw [traceGoals_skip (fun _ => rfl), traceGoals_leave]
    intro token member next
    rw [Goal.take?, hmore token member]
    rfl
  have htaking : token.taking (taken.within .document).enters =
      [(Place.ofToken token).enter .document] ++ token.taking taken.enters := rfl
  rw [allLeaves_append, List.append_assoc, hleaves, List.cons_append, documentGoals,
    traceGoals_take htakeFirst, htaking, ← Trace.after_after]
  simp only [Taken.within]
  rw [hrun, hrounds, hlast]
  simp [allEvents, Tree.events, hentry]

end GuardedQuery
