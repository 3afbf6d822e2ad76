import GuardedQuery.Proofs.Executable.Composing

/-! # What derived trees say

Whatever a pattern derives says something that fits the pattern, and what the children of
a derived node say has one of the forms that compose it.

- `Grammar.Pattern.Says`: what trees that a pattern derives can say.
- `Grammar.exists_composes`: a production allows only the forms.
- `Grammar.Derives.says_items`: derived trees say what their pattern allows.
- `Grammar.Derives.exists_part`: what a derived node says.
-/

namespace GuardedQuery

namespace Tree

def items (trees : List Tree) : List Item :=
  (parts trees).map (·.item)

theorem items_append (trees more : List Tree) :
    items (trees ++ more) = items trees ++ items more := by
  rw [items, parts_append, List.map_append, items, items]

end Tree

namespace Grammar

open Item (Fits optional Composes)

namespace Pattern

def Says : Pattern → List Item → Prop
  | empty, items => items = []
  | token terminal, items => ∃ t, terminal.Admits t.lexeme ∧ items = [.token t]
  | rule kind _, items => ∃ item, Fits kind item ∧ items = [item]
  | both first second, items =>
    ∃ front back, items = front ++ back ∧ first.Says front ∧ second.Says back
  | either left right, items => left.Says items ∨ right.Says items
  | optional pattern, items => items = [] ∨ pattern.Says items
  | many pattern, items =>
    ∃ rounds : List (List Item), items = rounds.flatten ∧ ∀ round ∈ rounds, pattern.Says round

variable {pattern left right : Pattern} {items : List Item}

theorem says_sequence_singleton : (sequence [pattern]).Says items ↔ pattern.Says items := by
  constructor
  · rintro ⟨front, _, rfl, hfront, rfl⟩
    rwa [List.append_nil]
  · intro h
    exact ⟨items, [], (List.append_nil items).symm, h, rfl⟩

def SaysOne {α : Type} (form : α → Item) (pattern : Pattern) : Prop :=
  ∀ items, pattern.Says items → ∃ part, items = [form part]

section one

variable {α : Type} {form : α → Item}

theorem SaysOne.token {terminal : Terminal} : SaysOne .token (.token terminal) := by
  rintro _ ⟨t, -, rfl⟩
  exact ⟨t, rfl⟩

theorem SaysOne.rule {kind : NodeKind} {constant : Bool}
    (h : ∀ item, Fits kind item → ∃ part, item = form part) :
    SaysOne form (.rule kind constant) := by
  rintro _ ⟨item, hfits, rfl⟩
  obtain ⟨part, rfl⟩ := h item hfits
  exact ⟨part, rfl⟩

theorem SaysOne.either (hleft : SaysOne form left) (hright : SaysOne form right) :
    SaysOne form (left ||| right) := by
  rintro items (h | h)
  · exact hleft items h
  · exact hright items h

theorem Says.exists_optional (h : pattern.optional.Says items) (hone : SaysOne form pattern) :
    ∃ part, items = Item.optional form part := by
  rcases h with rfl | h
  · exact ⟨none, rfl⟩
  · obtain ⟨part, rfl⟩ := hone items h
    exact ⟨some part, rfl⟩

theorem Says.exists_many (h : pattern.many.Says items) (hone : SaysOne form pattern) :
    ∃ parts : List α, items = parts.map form := by
  obtain ⟨rounds, rfl, hrounds⟩ := h
  induction rounds with
  | nil => exact ⟨[], rfl⟩
  | cons round rounds ih =>
    rw [List.forall_mem_cons] at hrounds
    obtain ⟨part, rfl⟩ := hone round hrounds.1
    obtain ⟨parts, hparts⟩ := ih hrounds.2
    exact ⟨part :: parts, congrArg (form part :: ·) hparts⟩

/-- One part or more between an opening and a closing token. -/
theorem Says.exists_enclosed {opening closing : TokenKind}
    (h : (enclosed opening pattern closing).Says items) (hone : SaysOne form pattern) :
    ∃ (first last : Token) (parts : List α),
      items = .token first :: (parts.map form ++ [.token last]) := by
  obtain ⟨_, _, rfl, ⟨first, -, rfl⟩, _, _, rfl, hfirst, _, _, rfl, hmore, hlast⟩ := h
  obtain ⟨last, -, rfl⟩ := says_sequence_singleton.1 hlast
  obtain ⟨part, rfl⟩ := hone _ hfirst
  obtain ⟨parts, rfl⟩ := hmore.exists_many hone
  exact ⟨first, last, part :: parts, rfl⟩

end one

end Pattern

open Pattern

/-! ## Productions -/

section rules

variable {constant : Bool}

theorem saysOne_literal : SaysOne .value (literal constant) := by
  refine .either (.either (.either (.either (.either (.either (.either ?_ ?_) ?_) ?_) ?_) ?_)
    ?_) ?_ <;> exact .rule fun _ h => h

theorem saysOne_value : SaysOne .value (value constant) := by
  cases constant with
  | true => exact saysOne_literal
  | false =>
    refine .either (.rule ?_) saysOne_literal
    rintro _ ⟨target, rfl⟩
    exact ⟨.reference target, rfl⟩

theorem saysOne_selection : SaysOne .selection selection := by
  refine .either (.either ?_ ?_) ?_ <;> exact .rule fun _ h => h

theorem exists_optionalDirectives {items : List Item} (h : (directives constant).Says items) :
    ∃ directives, items = Item.optional .directives directives :=
  h.exists_optional (.rule fun _ h => h)

theorem exists_optionalArguments {items : List Item}
    (h : (rule .arguments constant).optional.Says items) :
    ∃ arguments, items = Item.optional .arguments arguments :=
  h.exists_optional (.rule fun _ h => h)

theorem saysOne_selectionSet : SaysOne .selectionSet (rule .selectionSet constant) :=
  .rule fun _ h => h

theorem exists_optionalName {items : List Item} (h : name.optional.Says items) :
    ∃ name : Option Token, (∀ t ∈ name, t.kind = .name) ∧ items = Item.optional .token name := by
  rcases h with rfl | ⟨t, ht, rfl⟩
  · exact ⟨none, nofun, rfl⟩
  · refine ⟨some t, ?_, rfl⟩
    rintro _ ⟨⟩
    exact ht

end rules

/-- What the children of a node say has one of the forms. -/
theorem exists_composes {kind : NodeKind} {constant : Bool} {items : List Item}
    (range : ByteRange) (head : Token) (hkind : kind ≠ .document)
    (h : (production kind constant).Says items) :
    ∃ item, Composes range head kind items item := by
  cases kind with
  | document => exact absurd rfl hkind
  | operationDefinition =>
    rcases h with h | ⟨_, _, rfl, ⟨keyword, hkeyword, rfl⟩, _, _, rfl, hname, _, _, rfl,
      hvariables, _, _, rfl, hdirectives, h⟩
    · obtain ⟨set, rfl⟩ := saysOne_selectionSet items h
      exact ⟨_, .shorthand set⟩
    · obtain ⟨inputs, rfl⟩ :=
        hvariables.exists_optional (.rule fun _ h => h)
      obtain ⟨directives, rfl⟩ := exists_optionalDirectives hdirectives
      obtain ⟨set, rfl⟩ := saysOne_selectionSet _ (says_sequence_singleton.1 h)
      obtain ⟨name, hkind, rfl⟩ := exists_optionalName hname
      exact ⟨_, .operation inputs directives set hkeyword.1 hkind⟩
  | fragmentDefinition =>
    obtain ⟨_, _, rfl, ⟨word, hword, rfl⟩, _, _, rfl, ⟨name, hname, rfl⟩, _, _, rfl,
      ⟨_, ⟨condition, rfl⟩, rfl⟩, _, _, rfl, hdirectives, h⟩ := h
    obtain ⟨directives, rfl⟩ := exists_optionalDirectives hdirectives
    obtain ⟨set, rfl⟩ := saysOne_selectionSet _ (says_sequence_singleton.1 h)
    exact ⟨_, .fragment condition directives set hword.1 hname.1⟩
  | variableDefinitions =>
    obtain ⟨opening, closing, definitions, rfl⟩ := Says.exists_enclosed h (.rule fun _ h => h)
    exact ⟨_, .variableDefinitions opening closing definitions⟩
  | variableDefinition =>
    obtain ⟨_, _, rfl, ⟨_, ⟨target, rfl⟩, rfl⟩, _, _, rfl, ⟨colon, -, rfl⟩, _, _, rfl,
      ⟨_, rfl, rfl⟩, _, _, rfl, hvalue, h⟩ := h
    obtain ⟨value, rfl⟩ := hvalue.exists_optional (.rule fun _ h => h)
    obtain ⟨directives, rfl⟩ := exists_optionalDirectives (says_sequence_singleton.1 h)
    exact ⟨_, .variableDefinition target colon value directives⟩
  | variableRef =>
    obtain ⟨_, _, rfl, ⟨dollar, hdollar, rfl⟩, h⟩ := h
    obtain ⟨name, hname, rfl⟩ := says_sequence_singleton.1 h
    exact ⟨_, .variableRef hdollar hname⟩
  | defaultValue =>
    obtain ⟨_, _, rfl, ⟨equals, -, rfl⟩, h⟩ := h
    obtain ⟨value, rfl⟩ := saysOne_value _ (says_sequence_singleton.1 h)
    exact ⟨_, .defaultValue equals value⟩
  | typeRef =>
    obtain ⟨_, _, rfl, htype, h⟩ := h
    obtain ⟨bang, rfl⟩ := (says_sequence_singleton.1 h).exists_optional .token
    rcases htype with ⟨_, ⟨name, rfl⟩, rfl⟩ | ⟨_, rfl, rfl⟩
    · exact ⟨_, .typeRef _ bang (.inr ⟨name, rfl⟩)⟩
    · exact ⟨_, .typeRef _ bang (.inl rfl)⟩
  | namedType =>
    obtain ⟨name, hname, rfl⟩ := h
    exact ⟨_, .namedType hname⟩
  | listType =>
    obtain ⟨_, _, rfl, ⟨opening, -, rfl⟩, _, _, rfl, ⟨_, rfl, rfl⟩, h⟩ := h
    obtain ⟨closing, -, rfl⟩ := says_sequence_singleton.1 h
    exact ⟨_, .listType opening closing⟩
  | selectionSet =>
    obtain ⟨opening, closing, selections, rfl⟩ := Says.exists_enclosed h saysOne_selection
    exact ⟨_, .selectionSet opening closing selections⟩
  | field =>
    obtain ⟨_, _, rfl, hlabel, _, _, rfl, ⟨name, hname, rfl⟩, _, _, rfl, harguments, _, _, rfl,
      hdirectives, h⟩ := h
    obtain ⟨label, rfl⟩ := hlabel.exists_optional (.rule fun _ h => h)
    obtain ⟨arguments, rfl⟩ := exists_optionalArguments harguments
    obtain ⟨directives, rfl⟩ := exists_optionalDirectives hdirectives
    obtain ⟨set, rfl⟩ := (says_sequence_singleton.1 h).exists_optional saysOne_selectionSet
    exact ⟨_, .field label arguments directives set hname⟩
  | fieldAlias =>
    obtain ⟨_, _, rfl, ⟨name, hname, rfl⟩, h⟩ := h
    obtain ⟨colon, -, rfl⟩ := says_sequence_singleton.1 h
    exact ⟨_, .fieldAlias colon hname⟩
  | arguments =>
    obtain ⟨opening, closing, arguments, rfl⟩ := Says.exists_enclosed h (.rule fun _ h => h)
    exact ⟨_, .arguments opening closing arguments⟩
  | argument =>
    obtain ⟨_, _, rfl, ⟨name, hname, rfl⟩, _, _, rfl, ⟨colon, -, rfl⟩, h⟩ := h
    obtain ⟨value, rfl⟩ := saysOne_value _ (says_sequence_singleton.1 h)
    exact ⟨_, .argument colon value hname⟩
  | fragmentSpread =>
    obtain ⟨_, _, rfl, ⟨dots, hdots, rfl⟩, _, _, rfl, ⟨name, hname, rfl⟩, h⟩ := h
    obtain ⟨directives, rfl⟩ := exists_optionalDirectives (says_sequence_singleton.1 h)
    exact ⟨_, .fragmentSpread directives hdots hname.1⟩
  | inlineFragment =>
    obtain ⟨_, _, rfl, ⟨dots, -, rfl⟩, _, _, rfl, hcondition, _, _, rfl, hdirectives, h⟩ := h
    obtain ⟨condition, rfl⟩ := hcondition.exists_optional (.rule fun _ h => h)
    obtain ⟨directives, rfl⟩ := exists_optionalDirectives hdirectives
    obtain ⟨set, rfl⟩ := saysOne_selectionSet _ (says_sequence_singleton.1 h)
    exact ⟨_, .inlineFragment dots condition directives set⟩
  | typeCondition =>
    obtain ⟨_, _, rfl, ⟨word, -, rfl⟩, h⟩ := h
    obtain ⟨_, ⟨name, rfl⟩, rfl⟩ := says_sequence_singleton.1 h
    exact ⟨_, .typeCondition word name⟩
  | directives =>
    obtain ⟨_, _, rfl, ⟨_, ⟨first, rfl⟩, rfl⟩, h⟩ := h
    obtain ⟨directives, rfl⟩ := (says_sequence_singleton.1 h).exists_many (.rule fun _ h => h)
    exact ⟨_, .directives (first :: directives)⟩
  | directive =>
    obtain ⟨_, _, rfl, ⟨sign, hsign, rfl⟩, _, _, rfl, ⟨name, hname, rfl⟩, h⟩ := h
    obtain ⟨arguments, rfl⟩ := exists_optionalArguments (says_sequence_singleton.1 h)
    exact ⟨_, .directive arguments hsign hname⟩
  | intValue | floatValue | booleanValue | nullValue | enumValue =>
    obtain ⟨t, -, rfl⟩ := h
    exact ⟨_, .scalar t (by decide)⟩
  | stringValue =>
    rcases h with ⟨t, -, rfl⟩ | ⟨t, -, rfl⟩ <;> exact ⟨_, .scalar t (by decide)⟩
  | listValue =>
    obtain ⟨_, _, rfl, ⟨opening, -, rfl⟩, _, _, rfl, hvalues, h⟩ := h
    obtain ⟨closing, -, rfl⟩ := says_sequence_singleton.1 h
    obtain ⟨values, rfl⟩ := hvalues.exists_many saysOne_value
    exact ⟨_, .listValue opening closing values⟩
  | objectValue =>
    obtain ⟨_, _, rfl, ⟨opening, -, rfl⟩, _, _, rfl, hfields, h⟩ := h
    obtain ⟨closing, -, rfl⟩ := says_sequence_singleton.1 h
    obtain ⟨fields, rfl⟩ := hfields.exists_many (.rule fun _ h => h)
    exact ⟨_, .objectValue opening closing fields⟩
  | objectField =>
    obtain ⟨_, _, rfl, ⟨name, hname, rfl⟩, _, _, rfl, ⟨colon, -, rfl⟩, h⟩ := h
    obtain ⟨value, rfl⟩ := saysOne_value _ (says_sequence_singleton.1 h)
    exact ⟨_, .objectField colon value hname⟩

open GuardedQuery.Tree

/-! ## Derived nodes -/

/-- A node with leaves whose children say what the production allows says one of the forms
between its first and its last leaf. -/
theorem exists_part_of_says {kind : NodeKind} {constant : Bool} {children : List Tree}
    (hkind : kind ≠ .document) (hleaves : allLeaves children ≠ [])
    (h : (production kind constant).Says (Tree.items children)) :
    ∃ first last item, Composes ⟨first.start, last.stop⟩ first kind (Tree.items children) item ∧
      (node kind children).part? = some ⟨first, last, item⟩ := by
  have hfirst := map_first_parts children
  have hlast := map_last_parts children
  rw [List.head?_eq_some_head hleaves] at hfirst
  rw [List.getLast?_eq_some_getLast hleaves] at hlast
  obtain ⟨item, hitem⟩ := exists_composes
    ⟨((allLeaves children).head hleaves).start, ((allLeaves children).getLast hleaves).stop⟩
    ((allLeaves children).head hleaves) hkind h
  refine ⟨_, _, item, hitem, ?_⟩
  rw [part?_node, Part.ofNode?_eq, hfirst, hlast, ← hitem.getD_ofNode?]
  rfl

/-- Derived trees say what their pattern allows. -/
theorem Derives.says_items {pattern : Pattern} {trees : List Tree} (h : Derives pattern trees)
    (hinner : pattern.isInner = true) : pattern.Says (Tree.items trees) := by
  induction h with
  | empty => rfl
  | @token _ t h => exact ⟨t, h, rfl⟩
  | @rule kind constant children h ih =>
    obtain ⟨first, last, item, hitem, hpart⟩ :=
      exists_part_of_says (by simpa [isInner] using hinner)
        (h.allLeaves_ne_nil (production_nullable _ _)) (ih (production_isInner _ _))
    exact ⟨item, hitem.fits, by rw [Tree.items, parts_cons, hpart]; rfl⟩
  | both _ _ ihfirst ihsecond =>
    simp only [isInner, Bool.and_eq_true] at hinner
    exact ⟨_, _, Tree.items_append _ _, ihfirst hinner.1, ihsecond hinner.2⟩
  | left _ ih =>
    simp only [isInner, Bool.and_eq_true] at hinner
    exact .inl (ih hinner.1)
  | right _ ih =>
    simp only [isInner, Bool.and_eq_true] at hinner
    exact .inr (ih hinner.2)
  | absent => exact .inl rfl
  | present _ ih => exact .inr (ih hinner)
  | done => exact ⟨[], rfl, fun _ hround => absurd hround List.not_mem_nil⟩
  | more _ _ ih ihmore =>
    obtain ⟨rounds, hrounds, hsays⟩ := ihmore hinner
    refine ⟨_ :: rounds, ?_, List.forall_mem_cons.2 ⟨ih hinner, hsays⟩⟩
    rw [Tree.items_append, hrounds, List.flatten_cons]

/-- What a derived node says between its first and its last leaf. -/
theorem Derives.exists_part {kind : NodeKind} {constant : Bool} {children : List Tree}
    (h : Derives (production kind constant) children) (hkind : kind ≠ .document) :
    ∃ first last item, Composes ⟨first.start, last.stop⟩ first kind (Tree.items children) item ∧
      (node kind children).part? = some ⟨first, last, item⟩ :=
  exists_part_of_says hkind (h.allLeaves_ne_nil (production_nullable _ _))
    (h.says_items (production_isInner _ _))

/-- A document says its definitions. -/
theorem Derives.items_document {children : List Tree}
    (h : Derives (production .document false) children) :
    Tree.items children = (definitions children).map .definition := by
  have hone : SaysOne .definition definition := by
    refine .either ?_ ?_ <;> exact .rule fun _ h => h
  obtain ⟨_, _, hitems, hfirst, hmore⟩ := h.says_items (production_isInner _ _)
  obtain ⟨first, rfl⟩ := hone _ hfirst
  obtain ⟨more, rfl⟩ := (says_sequence_singleton.1 hmore).exists_many hone
  have hmap : Tree.items children = (first :: more).map .definition := hitems
  rw [definitions, ← Tree.items, hmap,
    Item.filterMap_map_self Item.definition? (fun _ => rfl) (first :: more)]

end Grammar

end GuardedQuery
