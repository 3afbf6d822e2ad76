import GuardedQuery.Proofs.Executable.Forms
import GuardedQuery.Proofs.Executable.Written
import GuardedQuery.Proofs.Relocation.Reading

/-! # What written documents say

The tokens of a written document have a derivation, and the derivation says what was
written.

- `Tree.said`: what several trees say, with all places forgotten.
- `Grammar.Writes`: tokens that a pattern derives, and what they say.
- `Grammar.Writes.rule` and the like: one rule for every kind of pattern.
- `Written.Document.writes`: a document is written as its definitions.
-/

namespace GuardedQuery

open Grammar GuardedQuery.Tree

/-! ## Trees without places -/

theorem Item.relocate_getD_ofNode? {r : Relocation} (kind : NodeKind) (range : ByteRange)
    (head : Token) (items : List Item) :
    ((ofNode? kind range head items).getD .nothing).relocate r =
      (ofNode? kind (r.range range) (head.relocate r) (items.map (relocate r))).getD .nothing := by
  rw [ofNode?_relocate]
  cases ofNode? kind range head items <;> rfl

namespace Tree

def said (trees : List Tree) : List Item :=
  (items trees).map (Item.relocate .forget)

@[simp] theorem said_append (trees more : List Tree) :
    said (trees ++ more) = said trees ++ said more := by
  rw [said, items_append, List.map_append, said, said]

/-- Without places, a node says what its first leaf and what its children say decide. -/
theorem said_node (kind : NodeKind) (children : List Tree) :
    said [node kind children] =
      ((allLeaves children).head?.map fun first =>
        (Item.ofNode? kind (.empty 0) first.lexeme.token (said children)).getD
          .nothing).toList := by
  have hlast := map_last_parts children
  rw [said, items, parts_cons, part?_node, Part.ofNode?_eq, map_first_parts, hlast]
  -- The last leaf only gives the end of the range, which is forgotten.
  cases hleaves : allLeaves children with
  | nil => rfl
  | cons first rest =>
    rw [List.getLast?_cons]
    exact congrArg ([·]) (Item.relocate_getD_ofNode? ..)

mutual

/-- Moved trees say the same without places. -/
theorem said_relocate (r : Relocation) : ∀ tree : Tree, said [tree.relocate r] = said [tree]
  | leaf _ => rfl
  | node kind children => by
    rw [relocate, said_node, said_node, said_relocateAll r children, allLeaves_relocateAll,
      List.head?_map, Option.map_map]
    rfl

theorem said_relocateAll (r : Relocation) : ∀ trees : List Tree,
    said (relocateAll r trees) = said trees
  | [] => rfl
  | tree :: trees => by
    rw [relocateAll, ← List.singleton_append, said_append, said_relocate r tree,
      said_relocateAll r trees, ← said_append, List.singleton_append]

end

end Tree

namespace Grammar

def Writes (pattern : Pattern) (lexemes : List Lexeme) (items : List Item) : Prop :=
  ∃ trees, Derives pattern trees ∧ (allLeaves trees).map Token.lexeme = lexemes ∧
    Tree.said trees = items

open Pattern

variable {pattern other : Pattern} {patterns : List Pattern} {lexeme : Lexeme}
  {lexemes more : List Lexeme} {items others : List Item}

/-! ## One rule for each kind of pattern -/

theorem Writes.nil : Writes (sequence []) [] [] :=
  ⟨[], .empty, rfl, rfl⟩

theorem Writes.cons (h : Writes pattern lexemes items)
    (hmore : Writes (sequence patterns) more others) :
    Writes (sequence (pattern :: patterns)) (lexemes ++ more) (items ++ others) := by
  obtain ⟨trees, hderives, rfl, rfl⟩ := h
  obtain ⟨rest, hrest, rfl, rfl⟩ := hmore
  exact ⟨trees ++ rest, .both hderives hrest, by simp, by simp⟩

theorem Writes.last (h : Writes pattern lexemes items) :
    Writes (sequence [pattern]) lexemes items := by
  have hcons := h.cons .nil
  rwa [List.append_nil, List.append_nil] at hcons

theorem Writes.token {terminal : Terminal} (h : terminal.Admits lexeme) :
    Writes (.token terminal) [lexeme] [.token lexeme.token] :=
  ⟨[.leaf lexeme.token], .token h, rfl, rfl⟩

theorem Writes.tokenCons {terminal : Terminal} (h : terminal.Admits lexeme)
    (hmore : Writes (sequence patterns) more others) :
    Writes (sequence (.token terminal :: patterns)) (lexeme :: more)
      (.token lexeme.token :: others) :=
  (Writes.token h).cons hmore

/-- A token that is written in one way only. -/
theorem Writes.sign (kind : TokenKind) :
    Writes (punctuator kind) [Written.sign kind] [.token (Written.sign kind).token] :=
  .token rfl

theorem Writes.signCons (kind : TokenKind) (hmore : Writes (sequence patterns) more others) :
    Writes (sequence (punctuator kind :: patterns)) (Written.sign kind :: more)
      (.token (Written.sign kind).token :: others) :=
  .tokenCons rfl hmore

theorem Writes.nameCons (text : String) (hmore : Writes (sequence patterns) more others) :
    Writes (sequence (Grammar.name :: patterns)) (Written.word text :: more)
      (.token (Written.word text).token :: others) :=
  .tokenCons rfl hmore

/-- What is written between an opening and a closing token. -/
theorem Writes.between (opening closing : TokenKind) (h : Writes pattern lexemes items) :
    Writes (sequence [punctuator opening, pattern, punctuator closing])
      (Written.enclosed opening lexemes closing)
      (.token (Written.sign opening).token ::
        (items ++ [.token (Written.sign closing).token])) :=
  .signCons opening (h.cons (.last (.sign closing)))

theorem Writes.left (h : Writes pattern lexemes items) :
    Writes (pattern ||| other) lexemes items := by
  obtain ⟨trees, hderives, hlexemes, hitems⟩ := h
  exact ⟨trees, .left hderives, hlexemes, hitems⟩

theorem Writes.right (h : Writes pattern lexemes items) :
    Writes (other ||| pattern) lexemes items := by
  obtain ⟨trees, hderives, hlexemes, hitems⟩ := h
  exact ⟨trees, .right hderives, hlexemes, hitems⟩

/-- A node says what the form says that its children say. -/
theorem Writes.rule {kind : NodeKind} {constant : Bool} {item : Item}
    (h : Writes (production kind constant) lexemes items)
    (hitem : ∀ head ∈ lexemes.head?, Item.Composes (.empty 0) head.token kind items item) :
    Writes (.rule kind constant) lexemes [item] := by
  obtain ⟨children, hderives, rfl, rfl⟩ := h
  refine ⟨[.node kind children], .rule hderives, by simp, ?_⟩
  obtain ⟨first, rest, hleaves⟩ :=
    List.exists_cons_of_ne_nil (hderives.allLeaves_ne_nil (production_nullable _ _))
  have hread := (hitem first.lexeme (by rw [hleaves]; rfl)).getD_ofNode?
  rw [said_node, hleaves]
  exact congrArg ([·]) hread

section parts

variable {α β : Type} {form : β → Item} {print : α → List Lexeme} {read : α → β}

theorem Writes.absent : Writes pattern.optional [] (Item.optional form none) :=
  ⟨[], .absent, rfl, rfl⟩

theorem Writes.present {part : β} (h : Writes pattern lexemes [form part]) :
    Writes pattern.optional lexemes (Item.optional form (some part)) := by
  obtain ⟨trees, hderives, hlexemes, hitems⟩ := h
  exact ⟨trees, .present hderives, hlexemes, hitems⟩

theorem Writes.optional {part : Option α}
    (h : ∀ a ∈ part, Writes pattern (print a) [form (read a)]) :
    Writes pattern.optional (Written.optional print part) (Item.optional form (part.map read)) := by
  cases part with
  | none => exact .absent
  | some a => exact .present (h a rfl)

theorem Writes.many {parts : List α} (h : ∀ a ∈ parts, Writes pattern (print a) [form (read a)]) :
    Writes pattern.many (parts.flatMap print) ((parts.map read).map form) := by
  induction parts with
  | nil => exact ⟨[], .done, rfl, rfl⟩
  | cons a parts ih =>
    rw [List.forall_mem_cons] at h
    obtain ⟨trees, hderives, hlexemes, hitems⟩ := h.1
    obtain ⟨rest, hrest, hlexemes', hitems'⟩ := ih h.2
    exact ⟨trees ++ rest, .more hderives hrest, by simp [hlexemes, hlexemes'],
      by simp [hitems, hitems']⟩

/-- One part or more. -/
theorem Writes.oneOrMore {parts : Written.OneOrMore α}
    (h : ∀ a ∈ parts.toList, Writes pattern (print a) [form (read a)]) :
    Writes (sequence [pattern, pattern.many]) (parts.toList.flatMap print)
      ((parts.toList.map read).map form) := by
  rw [Written.OneOrMore.toList, List.forall_mem_cons] at h
  exact h.1.cons (Writes.many h.2).last

/-- One part or more between an opening and a closing token. -/
theorem Writes.enclosed (opening closing : TokenKind) {parts : Written.OneOrMore α}
    (h : ∀ a ∈ parts.toList, Writes pattern (print a) [form (read a)]) :
    Writes (Grammar.enclosed opening pattern closing)
      (Written.enclosed opening (parts.toList.flatMap print) closing)
      (.token (Written.sign opening).token ::
        ((parts.toList.map read).map form ++ [.token (Written.sign closing).token])) := by
  rw [Written.OneOrMore.toList, List.forall_mem_cons] at h
  have hparts := Writes.signCons opening
    (h.1.cons ((Writes.many h.2).cons (.last (.sign closing))))
  rwa [← List.append_assoc (print _), ← List.append_assoc [form _]] at hparts

end parts

end Grammar

namespace Written

variable {constant : Bool}

/-! ## Several parts at once -/

section lists

variable {α β : Type}

/-- A function that joins what a list's members give, written as a recursion. -/
theorem eq_flatMap {all : List α → List β} {one : α → List β} (hnil : all [] = [])
    (hcons : ∀ part rest, all (part :: rest) = one part ++ all rest) (parts : List α) :
    all parts = parts.flatMap one := by
  induction parts with
  | nil => exact hnil
  | cons part rest ih => rw [hcons, ih, List.flatMap_cons]

theorem eq_map {all : List α → List β} {one : α → β} (hnil : all [] = [])
    (hcons : ∀ part rest, all (part :: rest) = one part :: all rest) (parts : List α) :
    all parts = parts.map one := by
  induction parts with
  | nil => exact hnil
  | cons part rest ih => rw [hcons, ih, List.map_cons]

end lists

/-! ## Values -/

theorem Literal.rule_mem (literal : Literal) : literal.rule ∈ scalarRules := by
  cases literal <;> simp [rule, scalarRules]

theorem Literal.writes (literal : Literal) :
    Writes (.rule literal.rule constant) [literal.lexeme]
      [.value (.scalar (.empty 0) literal.rule literal.lexeme.text)] := by
  refine .rule ?_ fun _ _ => .scalar literal.lexeme.token literal.rule_mem
  cases literal with
  | int text => exact .token rfl
  | float text => exact .token rfl
  | string text => exact .left (.token rfl)
  | blockString text => exact .right (.token rfl)
  | boolean value => exact .token ⟨rfl, by cases value <;> decide⟩
  | null => exact .token ⟨rfl, by decide⟩
  | enum text h => exact .token ⟨rfl, h⟩

theorem writes_literal {kind : NodeKind} {lexemes : List Lexeme} {items : List Item}
    (hkind : kind ∈ literalRules) (h : Writes (.rule kind constant) lexemes items) :
    Writes (Grammar.value constant) lexemes items := by
  obtain ⟨trees, hderives, hlexemes, hitems⟩ := h
  have hliteral := derives_literal.2 ⟨kind, hkind, hderives⟩
  cases constant with
  | true => exact ⟨trees, hliteral, hlexemes, hitems⟩
  | false => exact ⟨trees, .right hliteral, hlexemes, hitems⟩

theorem Value.allLexemes_eq (values : List (Value constant)) :
    Value.allLexemes values = values.flatMap Value.lexemes :=
  eq_flatMap rfl (fun _ _ => rfl) values

theorem Value.readAll_eq (values : List (Value constant)) :
    Value.readAll values = values.map Value.read :=
  eq_map rfl (fun _ _ => rfl) values

theorem ObjectField.allLexemes_eq (fields : List (ObjectField constant)) :
    ObjectField.allLexemes fields = fields.flatMap ObjectField.lexemes :=
  eq_flatMap rfl (fun _ _ => rfl) fields

theorem ObjectField.readAll_eq (fields : List (ObjectField constant)) :
    ObjectField.readAll fields = fields.map ObjectField.read :=
  eq_map rfl (fun _ _ => rfl) fields

mutual

theorem Value.writes : ∀ value : Value constant,
    Writes (Grammar.value constant) value.lexemes [.value value.read]
  | .reference _ h => by
    subst h
    exact .left (.rule (.tokenCons rfl (.last (.token rfl))) fun _ _ => .variableRef rfl rfl)
  | .literal literal => by
    have hrules : scalarRules ⊆ literalRules := by decide
    exact writes_literal (hrules literal.rule_mem) literal.writes
  | .list items => by
    have hitems := Writes.many (Value.allWrites items)
    have hlist : Writes (.rule .listValue constant) _ _ :=
      .rule (hitems.between .bracketOpen .bracketClose) fun _ _ => .listValue _ _ _
    rw [Value.lexemes, Value.read, Value.allLexemes_eq, Value.readAll_eq]
    exact writes_literal (by decide) hlist
  | .object fields => by
    have hfields := Writes.many (ObjectField.allWrites fields)
    have hobject : Writes (.rule .objectValue constant) _ _ :=
      .rule (hfields.between .braceOpen .braceClose) fun _ _ => .objectValue _ _ _
    rw [Value.lexemes, Value.read, ObjectField.allLexemes_eq, ObjectField.readAll_eq]
    exact writes_literal (by decide) hobject

theorem Value.allWrites : ∀ values : List (Value constant), ∀ value ∈ values,
    Writes (Grammar.value constant) value.lexemes [.value value.read]
  | [] => nofun
  | value :: rest => List.forall_mem_cons.2 ⟨Value.writes value, Value.allWrites rest⟩

theorem ObjectField.writes : ∀ field : ObjectField constant,
    Writes (.rule .objectField constant) field.lexemes [.objectField field.read]
  | .mk _ value =>
    .rule (.tokenCons rfl (.tokenCons rfl (.last (Value.writes value))))
      fun _ _ => .objectField _ _ rfl

theorem ObjectField.allWrites : ∀ fields : List (ObjectField constant), ∀ field ∈ fields,
    Writes (.rule .objectField constant) field.lexemes [.objectField field.read]
  | [] => nofun
  | field :: rest => List.forall_mem_cons.2 ⟨ObjectField.writes field, ObjectField.allWrites rest⟩

end

/-! ## Arguments and directives -/

theorem Argument.writes (argument : Argument constant) :
    Writes (.rule .argument constant) argument.lexemes [.argument argument.read] :=
  .rule (.tokenCons rfl (.signCons .colon (.last argument.value.writes)))
    fun _ _ => .argument _ _ rfl

theorem Argument.allWrites (arguments : OneOrMore (Argument constant)) :
    Writes (.rule .arguments constant) (Argument.allLexemes arguments)
      [.arguments (Argument.readAll arguments)] :=
  .rule (.enclosed .parenOpen .parenClose fun argument _ => argument.writes)
    fun _ _ => .arguments _ _ _

theorem Directive.writes (directive : Directive constant) :
    Writes (.rule .directive constant) directive.lexemes [.directive directive.read] :=
  .rule (.signCons .atSign (.tokenCons rfl (.last
      (.optional fun arguments _ => Argument.allWrites arguments))))
    fun _ _ => .directive _ rfl rfl

theorem Directive.allWrites (directives : OneOrMore (Directive constant)) :
    Writes (.rule .directives constant) (Directive.allLexemes directives)
      [.directives (Directive.readAll directives)] :=
  .rule (.oneOrMore fun directive _ => directive.writes) fun _ _ => .directives _

theorem optionalDirectives_writes (part : Option (OneOrMore (Directive constant))) :
    Writes (directives constant) (optional Directive.allLexemes part)
      (Item.optional .directives (part.map Directive.readAll)) :=
  .optional fun directives _ => Directive.allWrites directives

theorem optionalArguments_writes (part : Option (OneOrMore (Argument constant))) :
    Writes (Pattern.rule .arguments constant).optional (optional Argument.allLexemes part)
      (Item.optional .arguments (part.map Argument.readAll)) :=
  .optional fun arguments _ => Argument.allWrites arguments

/-! ## Selections -/

theorem label_writes (label : String) :
    Writes (.rule .fieldAlias false) [word label, sign .colon] [.label (word label).token] :=
  .rule (.tokenCons rfl (.last (.sign .colon))) fun _ _ => .fieldAlias _ rfl

theorem namedType_writes (name : String) :
    Writes (.rule .namedType false) [word name] [.typeName (word name).token] :=
  .rule (.token rfl) fun _ _ => .namedType rfl

theorem condition_writes (typeName : String) :
    Writes (.rule .typeCondition false) (conditionLexemes typeName)
      [.typeName (word typeName).token] :=
  .rule (.tokenCons ⟨rfl, by decide⟩ (.last (namedType_writes typeName)))
    fun _ _ => .typeCondition _ _

theorem Selection.allLexemes_eq (selections : List Selection) :
    Selection.allLexemes selections = selections.flatMap Selection.lexemes :=
  eq_flatMap rfl (fun _ _ => rfl) selections

theorem Selection.readAll_eq (selections : List Selection) :
    Selection.readAll selections = selections.map Selection.read :=
  eq_map rfl (fun _ _ => rfl) selections

/-- A field is written whether or not it has selections. -/
theorem field_writes (label : Option String) (name : String)
    (arguments : Option (OneOrMore (Argument false)))
    (directives : Option (OneOrMore (Directive false))) {lexemes : List Lexeme}
    (set : Option GuardedQuery.SelectionSet)
    (hset : Writes (Pattern.rule .selectionSet false).optional lexemes
      (Item.optional .selectionSet set)) :
    Writes Grammar.selection
      (optional (fun label => [word label, sign .colon]) label ++ word name ::
        (optional Argument.allLexemes arguments ++ (optional Directive.allLexemes directives ++
          lexemes)))
      [.selection (.field ⟨.empty 0, label.map fun label => (word label).token, (word name).token,
        arguments.map Argument.readAll, directives.map Directive.readAll⟩ set)] := by
  have hlabel : Writes (Pattern.rule .fieldAlias false).optional
      (optional (fun label => [word label, sign .colon]) label)
      (Item.optional .label (label.map fun label => (word label).token)) :=
    .optional fun label _ => label_writes label
  have hfield : Writes (.rule .field false) _ _ :=
    .rule (hlabel.cons (.nameCons name ((optionalArguments_writes arguments).cons
      ((optionalDirectives_writes directives).cons (.last hset)))))
      fun _ _ => .field _ _ _ _ rfl
  exact .left (.left hfield)

mutual

theorem Selection.writes : ∀ selection : Selection,
    Writes Grammar.selection selection.lexemes [.selection selection.read]
  | .field label name arguments directives none =>
    field_writes label name arguments directives none .absent
  | .field label name arguments directives (some set) =>
    field_writes label name arguments directives (some set.read)
      (.present (SelectionSet.writes set))
  | .spread name directives => by
    have hspread : Writes (.rule .fragmentSpread false) (Selection.spread name directives).lexemes
        [.selection (Selection.spread name directives).read] :=
      .rule (.signCons .spread (.tokenCons ⟨rfl, name.ne_on⟩
        (.last (optionalDirectives_writes directives)))) fun _ _ => .fragmentSpread _ rfl rfl
    exact .left (.right hspread)
  | .inline typeName directives set => by
    have hcondition : Writes (Pattern.rule .typeCondition false).optional
        (optional conditionLexemes typeName)
        (Item.optional .typeName (typeName.map fun name => (word name).token)) :=
      .optional fun typeName _ => condition_writes typeName
    have hinline : Writes (.rule .inlineFragment false) _ _ :=
      .rule (.signCons .spread (hcondition.cons ((optionalDirectives_writes directives).cons
        (.last (SelectionSet.writes set))))) fun _ _ => .inlineFragment _ _ _ _
    exact .right hinline

theorem SelectionSet.writes : ∀ set : SelectionSet,
    Writes (.rule .selectionSet false) set.lexemes [.selectionSet set.read]
  | .mk first more => by
    let selections : OneOrMore Selection := ⟨first, more⟩
    have hselections : ∀ selection ∈ selections.toList,
        Writes Grammar.selection selection.lexemes [.selection selection.read] :=
      List.forall_mem_cons.2 ⟨Selection.writes first, Selection.allWrites more⟩
    rw [SelectionSet.lexemes, SelectionSet.read, Selection.allLexemes_eq, Selection.readAll_eq]
    exact .rule (.enclosed .braceOpen .braceClose hselections) fun _ _ => .selectionSet _ _ _

theorem Selection.allWrites : ∀ selections : List Selection, ∀ selection ∈ selections,
    Writes Grammar.selection selection.lexemes [.selection selection.read]
  | [] => nofun
  | selection :: rest =>
    List.forall_mem_cons.2 ⟨Selection.writes selection, Selection.allWrites rest⟩

end

/-! ## Definitions -/

theorem bang_writes (nonNull : Bool) :
    Writes (punctuator .bang).optional (if nonNull then [sign .bang] else [])
      (Item.optional .token (if nonNull then some (sign .bang).token else none)) := by
  cases nonNull with
  | false => exact .absent
  | true => exact .present (.sign .bang)

theorem TypeRef.writes (type : TypeRef) :
    Writes (.rule .typeRef false) type.lexemes [.nothing] := by
  induction type with
  | named name nonNull =>
    exact .rule ((Writes.left (namedType_writes name)).cons (.last (bang_writes nonNull)))
      fun _ _ => .typeRef _ _ (.inr ⟨_, rfl⟩)
  | list item nonNull ih =>
    have hlist : Writes (.rule .listType false) _ _ :=
      .rule (ih.between .bracketOpen .bracketClose) fun _ _ => .listType _ _
    exact .rule ((Writes.right hlist).cons (.last (bang_writes nonNull)))
      fun _ _ => .typeRef _ _ (.inl rfl)

theorem default_writes (value : Value true) :
    Writes (.rule .defaultValue true) (sign .equals :: value.lexemes) [.default value.read] :=
  .rule (.signCons .equals (.last value.writes)) fun _ _ => .defaultValue _ _

theorem VariableDefinition.writes (definition : VariableDefinition) :
    Writes (.rule .variableDefinition false) definition.lexemes
      [.variableDefinition definition.read] := by
  have htarget : Writes (.rule .variableRef false) _ _ :=
    .rule (.signCons .dollar (.nameCons definition.name .nil)) fun _ _ => .variableRef rfl rfl
  have hdefault : Writes (Pattern.rule .defaultValue true).optional
      (optional (sign .equals :: ·.lexemes) definition.default)
      (Item.optional .default (definition.default.map Value.read)) :=
    .optional fun value _ => default_writes value
  exact .rule (htarget.cons (.signCons .colon (definition.type.writes.cons (hdefault.cons
    (.last (optionalDirectives_writes definition.directives))))))
    fun _ _ => .variableDefinition _ _ _ _

theorem Definition.writes (definition : Definition) :
    Writes Grammar.definition definition.lexemes [.definition definition.read] := by
  cases definition with
  | shorthand set =>
    have hshorthand : Writes (.rule .operationDefinition false) (Definition.shorthand set).lexemes
        [.definition (Definition.shorthand set).read] := by
      refine .rule (.left set.writes) fun head hhead => ?_
      cases set with
      | mk first more =>
        cases hhead
        exact .shorthand _
    exact .left hshorthand
  | operation type name inputs directives set =>
    have hkeyword : (Terminal.word ["query", "mutation", "subscription"]).Admits
        (word (keyword type)) := by
      cases type <;> decide
    have hname : Writes Grammar.name.optional (optional ([word ·]) name)
        (Item.optional .token (name.map fun name => (word name).token)) :=
      .optional fun _ _ => .token rfl
    have hkinds : ∀ t ∈ name.map fun name => (word name).token, t.kind = .name := by
      intro t ht
      obtain ⟨text, -, rfl⟩ := Option.map_eq_some_iff.1 ht
      rfl
    have hvariables : Writes (Pattern.rule .variableDefinitions false).optional
        (optional (fun inputs => enclosed .parenOpen
          (inputs.toList.flatMap VariableDefinition.lexemes) .parenClose) inputs)
        (Item.optional .variableDefinitions
          (inputs.map (·.toList.map VariableDefinition.read))) :=
      .optional fun inputs _ =>
        .rule (.enclosed .parenOpen .parenClose fun definition _ => definition.writes)
          fun _ _ => .variableDefinitions _ _ _
    have hoperation : Writes (.rule .operationDefinition false)
        (Definition.operation type name inputs directives set).lexemes
        [.definition (Definition.operation type name inputs directives set).read] := by
      refine .rule (.right (.tokenCons hkeyword (hname.cons (hvariables.cons
        ((optionalDirectives_writes directives).cons (.last set.writes)))))) fun head hhead => ?_
      cases hhead
      exact .operation _ _ _ rfl hkinds
    exact .left hoperation
  | fragment name typeName directives set =>
    have hfragment : Writes (.rule .fragmentDefinition false)
        (Definition.fragment name typeName directives set).lexemes
        [.definition (Definition.fragment name typeName directives set).read] :=
      .rule (.tokenCons ⟨rfl, by decide⟩ (.tokenCons ⟨rfl, name.ne_on⟩
        ((condition_writes typeName).cons ((optionalDirectives_writes directives).cons
          (.last set.writes))))) fun _ _ => .fragment _ _ _ rfl rfl
    exact .right hfragment

/-- A document is written as its definitions. -/
theorem Document.writes (document : Document) :
    Writes (production .document false) document.lexemes (document.read.map .definition) :=
  .oneOrMore fun definition _ => definition.writes

end Written

end GuardedQuery
