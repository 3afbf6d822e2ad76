import GuardedQuery.Syntax.Goal

/-! # How goals take tokens

Every production of the goal table is a test on a token, put inside rules and followed by
more goals.  The equations here say so, production by production, with a few ways to
build one; what holds of these then holds of the whole table.

- `Taking`: what to do with a token and the one behind it.
- `opening`, `Taking.inside`, `Taking.andThen`, `Taking.orElse`, `Taking.lookingAhead`: the
  ways to build one.
- `Taking.of_opening`, `Taking.of_orElse`, `Taking.of_lookingAhead`: what these take.
-/

namespace GuardedQuery

abbrev Taking := Token → Option Token → Option Taken

def opening (test : Token → Bool) (goals : List Goal) : Taking :=
  fun t _ => if test t then some ⟨[], goals⟩ else none

namespace Taking

def inside (rule : NodeKind) (take : Taking) : Taking :=
  fun t next => (take t next).map fun taken => (taken.andThen [.leave rule]).within rule

def andThen (take : Taking) (goals : List Goal) : Taking :=
  fun t next => (take t next).map (·.andThen goals)

def orElse (take other : Taking) : Taking :=
  fun t next => (take t next).or (other t next)

def lookingAhead (test : Option Token → Bool) (take other : Taking) : Taking :=
  fun t next => if test next then take t next else other t next

theorem inside_opening (rule : NodeKind) (test : Token → Bool) (goals : List Goal) :
    (opening test goals).inside rule =
      fun t _ => if test t then some ⟨[rule], goals ++ [.leave rule]⟩ else none := by
  funext t next
  cases h : test t with
  | false => simp [inside, opening, h]
  | true => simp [inside, opening, h, Taken.andThen, Taken.within]

theorem inside_lookingAhead (rule : NodeKind) (test : Option Token → Bool)
    (take other : Taking) :
    (take.lookingAhead test other).inside rule =
      (take.inside rule).lookingAhead test (other.inside rule) := by
  funext t next
  simp only [inside, lookingAhead]
  split <;> rfl

theorem inside_orElse (rule : NodeKind) (take other : Taking) :
    (take.orElse other).inside rule = (take.inside rule).orElse (other.inside rule) := by
  funext t next
  simp only [inside, orElse]
  cases take t next with
  | none => simp
  | some taken => simp

/-! ### What is taken -/

variable {take other : Taking} {token : Token} {next : Option Token} {taken : Taken}

theorem of_opening {test : Token → Bool} {goals : List Goal}
    (h : opening test goals token next = some taken) : test token ∧ taken = ⟨[], goals⟩ := by
  simp only [opening, Option.ite_none_right_eq_some, Option.some.injEq] at h
  exact ⟨h.1, h.2.symm⟩

theorem of_orElse (h : take.orElse other token next = some taken) :
    take token next = some taken ∨ other token next = some taken := by
  rcases Option.or_eq_some_iff.1 h with h | ⟨-, h⟩
  · exact .inl h
  · exact .inr h

theorem of_lookingAhead {test : Option Token → Bool}
    (h : take.lookingAhead test other token next = some taken) :
    take token next = some taken ∨ other token next = some taken := by
  simp only [lookingAhead] at h
  split at h
  · exact .inl h
  · exact .inr h

end Taking

namespace Goal

/-! ## Productions -/

theorem takeSelectionSet?_eq :
    (fun t _ => takeSelectionSet? t : Taking) =
      (opening (·.kind = .braceOpen) [selection, moreSelections]).inside .selectionSet := by
  funext t next
  simp [takeSelectionSet?, Taking.inside_opening]

theorem takeDefinition?_eq :
    (fun t _ => takeDefinition? t : Taking) =
      ((opening (·.isWord "fragment") [fragmentName, typeCondition, optionalDirectives false,
          selectionSet]).inside .fragmentDefinition).orElse
        (((opening (fun t => t.isWord "query" || t.isWord "mutation" || t.isWord "subscription")
          [optionalName, optionalVariableDefinitions, optionalDirectives false,
            selectionSet]).inside .operationDefinition).orElse
          (Taking.inside .operationDefinition fun t _ => takeSelectionSet? t)) := by
  funext t next
  simp only [takeDefinition?, opening, Taking.inside, Taking.orElse]
  split
  · rfl
  · split <;> simp [Taken.andThen, Taken.within]

theorem takeVariable?_eq :
    (fun t _ => takeVariable? t : Taking) =
      (opening (·.kind = .dollar) [token .name "a variable name"]).inside .variableRef := by
  funext t next
  simp [takeVariable?, Taking.inside_opening]

theorem takeVariableDefinition?_eq :
    (fun t _ => takeVariableDefinition? t : Taking) =
      (Taking.andThen (fun t _ => takeVariable? t) [token .colon "':'", type, optionalDefault,
        optionalDirectives true]).inside .variableDefinition := by
  funext t next
  simp only [takeVariableDefinition?, Taking.inside, Taking.andThen, Option.map_map]
  congr 1
  funext taken
  simp [Taken.andThen, Taken.within]

theorem takeNamedType?_eq :
    (fun t _ => takeNamedType? t : Taking) =
      (opening (·.kind = .name) []).inside .namedType := by
  funext t next
  simp [takeNamedType?, Taking.inside_opening, Taken.scalar]

theorem takeType?_eq :
    (fun t _ => takeType? t : Taking) =
      ((((opening (·.kind = .bracketOpen) [type, token .bracketClose "']'"]).inside
        .listType).orElse (fun t _ => takeNamedType? t)).andThen [optionalBang]).inside
        .typeRef := by
  funext t next
  simp only [takeType?, opening, Taking.inside, Taking.andThen, Taking.orElse]
  by_cases h : t.kind = .bracketOpen <;> simp [h, Taken.andThen, Taken.within, Function.comp_def]

theorem takeTypeCondition?_eq :
    (fun t _ => takeTypeCondition? t : Taking) =
      (opening (·.isWord "on") [namedType]).inside .typeCondition := by
  funext t next
  simp [takeTypeCondition?, Taking.inside_opening]

theorem takeArgument?_eq (constant : Bool) :
    (fun t _ => takeArgument? constant t : Taking) =
      (opening (·.kind = .name) [token .colon "':'", value constant]).inside .argument := by
  funext t next
  simp [takeArgument?, Taking.inside_opening]

theorem takeDirective?_eq (constant : Bool) :
    (fun t _ => takeDirective? constant t : Taking) =
      (opening (·.kind = .atSign) [token .name "a directive name",
        optionalArguments constant]).inside .directive := by
  funext t next
  simp [takeDirective?, Taking.inside_opening]

theorem takeObjectField?_eq (constant : Bool) :
    (fun t _ => takeObjectField? constant t : Taking) =
      (opening (·.kind = .name) [token .colon "':'", value constant]).inside .objectField := by
  funext t next
  simp [takeObjectField?, Taking.inside_opening]

/-! ## Values -/

def takeLiteral (constant : Bool) : Taking :=
  ((opening (·.kind = .intLit) []).inside .intValue).orElse <|
  ((opening (·.kind = .floatLit) []).inside .floatValue).orElse <|
  (((opening (·.kind = .stringLit) []).orElse (opening (·.kind = .blockStringLit) [])).inside
    .stringValue).orElse <|
  ((opening (fun t => t.isWord "true" || t.isWord "false") []).inside .booleanValue).orElse <|
  ((opening (·.isWord "null") []).inside .nullValue).orElse <|
  ((opening (fun t => t.kind = .name && !(["true", "false", "null"].contains t.text)) []).inside
    .enumValue).orElse <|
  ((opening (·.kind = .bracketOpen) [listItems constant]).inside .listValue).orElse <|
  ((opening (·.kind = .braceOpen) [objectFields constant]).inside .objectValue)

theorem takeValue?_eq (constant : Bool) :
    (fun t _ => takeValue? constant t : Taking) =
      Taking.orElse (fun t _ => if constant then none else takeVariable? t)
        (takeLiteral constant) := by
  funext t next
  by_cases hname : t.kind = .name
  -- Names are told apart by their texts, all other tokens by their kinds.
  · cases constant <;>
      simp only [takeValue?, takeLiteral, takeVariable?, opening, Taking.inside, Taking.orElse,
        Token.isWord, hname, namedValue] <;>
      by_cases htrue : t.text = "true" <;> by_cases hfalse : t.text = "false" <;>
      by_cases hnull : t.text = "null" <;> simp [htrue, hfalse, hnull, Taken.scalar,
        Taken.andThen, Taken.within]
  · cases constant <;> cases hkind : t.kind <;>
      simp [takeValue?, takeLiteral, takeVariable?, opening, Taking.inside, Taking.orElse,
        Token.isWord, hkind, Taken.scalar, Taken.andThen, Taken.within] at hname ⊢

/-! ## Selections -/

def fieldGoals : List Goal :=
  [optionalArguments false, optionalDirectives false, optionalSelectionSet]

theorem takeField?_eq :
    takeField? =
      Taking.lookingAhead (·.any (·.kind = .colon))
        ((((opening (·.kind = .name) [token .colon "':'"]).inside .fieldAlias).andThen
          (token .name "a field name" :: fieldGoals)).inside .field)
        ((opening (·.kind = .name) fieldGoals).inside .field) := by
  funext t next
  simp only [takeField?, Taking.lookingAhead, opening, Taking.inside, Taking.andThen]
  by_cases h : t.kind = .name <;>
    by_cases hnext : next.any (·.kind = .colon) <;>
    simp [h, hnext, Taken.andThen, Taken.within, fieldGoals, afterFieldName]

theorem takeSpread?_eq :
    takeSpread? =
      Taking.lookingAhead (·.any fun name => name.kind = .name && !name.isWord "on")
        ((opening (·.kind = .spread) [fragmentName, optionalDirectives false]).inside
          .fragmentSpread)
        ((opening (·.kind = .spread) [optionalTypeCondition, optionalDirectives false,
          selectionSet]).inside .inlineFragment) := by
  funext t next
  simp only [takeSpread?, Taking.lookingAhead, opening, Taking.inside]
  by_cases h : t.kind = .spread <;>
    by_cases hnext : next.any fun name => name.kind = .name && !name.isWord "on" <;>
    simp [h, hnext, Taken.andThen, Taken.within]

theorem takeSelection?_eq : takeSelection? = Taking.orElse takeSpread? takeField? := rfl

/-! ## Goals of the table that are no production -/

theorem take?_token (kind : TokenKind) (what : String) :
    take? (token kind what) = opening (·.kind = kind) [] := by
  funext t next
  by_cases h : t.kind = kind <;> simp [take?, opening, Taken.only, h]

theorem take?_optionalName : take? optionalName = opening (·.kind = .name) [] := by
  funext t next
  by_cases h : t.kind = .name <;> simp [take?, opening, Taken.only, h]

theorem take?_optionalBang : take? optionalBang = opening (·.kind = .bang) [] := by
  funext t next
  by_cases h : t.kind = .bang <;> simp [take?, opening, Taken.only, h]

theorem take?_fragmentName :
    take? fragmentName = opening (fun t => t.kind = .name && !t.isWord "on") [] := by
  funext t next
  by_cases h : t.kind = .name <;> by_cases hon : t.isWord "on" <;>
    simp [take?, opening, Taken.only, h, hon]

theorem take?_optionalVariableDefinitions :
    take? optionalVariableDefinitions =
      (opening (·.kind = .parenOpen) [variableDefinition, moreVariableDefinitions]).inside
        .variableDefinitions := by
  funext t next
  simp [take?, Taking.inside_opening]

theorem take?_optionalDefault :
    take? optionalDefault =
      (opening (·.kind = .equals) [value true]).inside .defaultValue := by
  funext t next
  simp [take?, Taking.inside_opening]

theorem take?_optionalDirectives (constant : Bool) :
    take? (optionalDirectives constant) =
      (Taking.andThen (fun t _ => takeDirective? constant t)
        [moreDirectives constant]).inside .directives := by
  funext t next
  simp only [take?, Taking.inside, Taking.andThen, Option.map_map]
  congr 1
  funext taken
  simp [Taken.andThen, Taken.within]

theorem closeOr_eq (close : TokenKind) (more : Goal) (take : Taking) :
    (fun t next => closeOr close t more (take t next) : Taking) =
      (opening (·.kind = close) []).orElse (take.andThen [more]) := by
  funext t next
  by_cases h : t.kind = close <;>
    simp [closeOr, opening, Taking.orElse, Taking.andThen, Taken.only, h]

theorem take?_optionalArguments (constant : Bool) :
    take? (optionalArguments constant) =
      (opening (·.kind = .parenOpen) [argument constant, moreArguments constant]).inside
        .arguments := by
  funext t next
  simp [take?, Taking.inside_opening]

end Goal

end GuardedQuery
