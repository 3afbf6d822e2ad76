import GuardedQuery.Proofs.Executable.Reading

/-! # What nodes are composed of

The children of a node stand in the order of its production, so what they say has one of
a few forms, and each form makes the node say one thing.

- `Item.Composes`: the forms, with what a node says whose children say them.
- `Item.Composes.getD_ofNode?`: reading such a node gives that.
- `Item.Fits`: what the nodes of a kind can say.
-/

namespace GuardedQuery

namespace Item

def optional {α : Type} (form : α → Item) (part : Option α) : List Item :=
  (part.map form).toList

/-- What the children of a node say, in one of the forms that the productions allow, and
what the node says then.  Types are nothing that is kept. -/
inductive Composes (range : ByteRange) (head : Token) : NodeKind → List Item → Item → Prop where
  | shorthand (set : SelectionSet) :
      Composes range head .operationDefinition [.selectionSet set]
        (.definition (.operation ⟨range, head, none, none, none, none, set⟩))
  | operation {keyword : Token} {name : Option Token}
      (inputs : Option (List VariableDefinition)) (directives : Option (List Directive))
      (set : SelectionSet) (hkeyword : keyword.kind = .name) (hname : ∀ t ∈ name, t.kind = .name) :
      Composes range head .operationDefinition
        (.token keyword :: (optional .token name ++ (optional .variableDefinitions inputs ++
          (optional .directives directives ++ [.selectionSet set]))))
        (.definition (.operation ⟨range, head, some keyword, name, inputs, directives, set⟩))
  | fragment {word name : Token} (condition : Token) (directives : Option (List Directive))
      (set : SelectionSet) (hword : word.kind = .name) (hname : name.kind = .name) :
      Composes range head .fragmentDefinition
        (.token word :: .token name :: .typeName condition ::
          (optional .directives directives ++ [.selectionSet set]))
        (.definition (.fragment ⟨range, name, condition, directives, set⟩))
  | variableDefinitions (opening closing : Token) (definitions : List VariableDefinition) :
      Composes range head .variableDefinitions
        (.token opening :: (definitions.map .variableDefinition ++ [.token closing]))
        (.variableDefinitions definitions)
  | variableDefinition (target : Variable) (colon : Token) (value : Option Value)
      (directives : Option (List Directive)) :
      Composes range head .variableDefinition
        (.value (.reference target) :: .token colon :: .nothing ::
          (optional .default value ++ optional .directives directives))
        (.variableDefinition ⟨range, target, value, directives⟩)
  | variableRef {dollar name : Token} (hdollar : dollar.kind = .dollar)
      (hname : name.kind = .name) :
      Composes range head .variableRef [.token dollar, .token name]
        (.value (.reference ⟨range, name⟩))
  | defaultValue (equals : Token) (value : Value) :
      Composes range head .defaultValue [.token equals, .value value] (.default value)
  | typeRef (type : Item) (bang : Option Token)
      (htype : type = .nothing ∨ ∃ name, type = .typeName name) :
      Composes range head .typeRef (type :: optional .token bang) .nothing
  | listType (opening closing : Token) :
      Composes range head .listType [.token opening, .nothing, .token closing] .nothing
  | namedType {name : Token} (hname : name.kind = .name) :
      Composes range head .namedType [.token name] (.typeName name)
  | selectionSet (opening closing : Token) (selections : List Selection) :
      Composes range head .selectionSet
        (.token opening :: (selections.map .selection ++ [.token closing]))
        (.selectionSet (.mk range selections))
  | field (label : Option Token) {name : Token} (arguments : Option (List Argument))
      (directives : Option (List Directive)) (set : Option SelectionSet)
      (hname : name.kind = .name) :
      Composes range head .field
        (optional .label label ++ (.token name :: (optional .arguments arguments ++
          (optional .directives directives ++ optional .selectionSet set))))
        (.selection (.field ⟨range, label, name, arguments, directives⟩ set))
  | fieldAlias {name : Token} (colon : Token) (hname : name.kind = .name) :
      Composes range head .fieldAlias [.token name, .token colon] (.label name)
  | arguments (opening closing : Token) (arguments : List Argument) :
      Composes range head .arguments
        (.token opening :: (arguments.map .argument ++ [.token closing])) (.arguments arguments)
  | argument {name : Token} (colon : Token) (value : Value) (hname : name.kind = .name) :
      Composes range head .argument [.token name, .token colon, .value value]
        (.argument ⟨name, value⟩)
  | fragmentSpread {dots name : Token} (directives : Option (List Directive))
      (hdots : dots.kind = .spread) (hname : name.kind = .name) :
      Composes range head .fragmentSpread
        (.token dots :: .token name :: optional .directives directives)
        (.selection (.spread ⟨range, name, directives⟩))
  | inlineFragment (dots : Token) (condition : Option Token) (directives : Option (List Directive))
      (set : SelectionSet) :
      Composes range head .inlineFragment
        (.token dots :: (optional .typeName condition ++
          (optional .directives directives ++ [.selectionSet set])))
        (.selection (.inline ⟨range, condition, directives⟩ set))
  | typeCondition (word name : Token) :
      Composes range head .typeCondition [.token word, .typeName name] (.typeName name)
  | directives (directives : List Directive) :
      Composes range head .directives (directives.map .directive) (.directives directives)
  | directive {sign name : Token} (arguments : Option (List Argument)) (hsign : sign.kind = .atSign)
      (hname : name.kind = .name) :
      Composes range head .directive
        (.token sign :: .token name :: optional .arguments arguments) (.directive ⟨name, arguments⟩)
  | scalar {kind : NodeKind} (token : Token) (hkind : kind ∈ Grammar.scalarRules) :
      Composes range head kind [.token token] (.value (.scalar range kind token.text))
  | listValue (opening closing : Token) (values : List Value) :
      Composes range head .listValue
        (.token opening :: (values.map .value ++ [.token closing])) (.value (.list range values))
  | objectValue (opening closing : Token) (fields : List ObjectField) :
      Composes range head .objectValue
        (.token opening :: (fields.map .objectField ++ [.token closing]))
        (.value (.object range fields))
  | objectField {name : Token} (colon : Token) (value : Value) (hname : name.kind = .name) :
      Composes range head .objectField [.token name, .token colon, .value value]
        (.objectField (.mk name value))

section choices

variable {α : Type} {form : α → Item}

theorem filterMap_map_self (choose : Item → Option α)
    (h : ∀ part, choose (form part) = some part) (parts : List α) :
    (parts.map form).filterMap choose = parts := by
  rw [List.filterMap_map]
  exact (congrArg (List.filterMap · parts) (funext h)).trans List.filterMap_some

/-- The parts between an opening and a closing token. -/
theorem filterMap_enclosed (choose : Item → Option α)
    (h : ∀ part, choose (form part) = some part) (htoken : ∀ t, choose (.token t) = none)
    (opening closing : Token) (parts : List α) :
    (.token opening :: (parts.map form ++ [.token closing])).filterMap choose = parts := by
  simp [htoken, filterMap_map_self choose h]

end choices

variable {range : ByteRange} {head : Token} {kind : NodeKind} {items : List Item} {item : Item}

/-- A node whose children say one of the forms says what the form says. -/
theorem Composes.getD_ofNode? (h : Composes range head kind items item) :
    (ofNode? kind range head items).getD .nothing = item := by
  -- Names are found by their places among the names, everything else by its form.
  cases h with
  | shorthand set => rfl
  | @operation keyword name inputs directives set hkeyword hname =>
    have hnames : (.token keyword :: (optional .token name ++
        (optional .variableDefinitions inputs ++
          (optional .directives directives ++ [.selectionSet set])))).filterMap name? =
        keyword :: name.toList := by
      cases name <;> cases inputs <;> cases directives <;> simp_all [optional, name?]
    simp only [ofNode?, hnames]
    cases name <;> cases inputs <;> cases directives <;> rfl
  | @fragment word name condition directives set hword hname =>
    have hnames : (.token word :: .token name :: .typeName condition ::
        (optional .directives directives ++ [.selectionSet set])).filterMap name? =
          [word, name] := by
      cases directives <;> simp [optional, name?, hword, hname]
    simp only [ofNode?, hnames]
    cases directives <;> rfl
  | variableDefinitions opening closing definitions =>
    exact congrArg (Item.variableDefinitions)
      (filterMap_enclosed variableDefinition? (fun _ => rfl) (fun _ => rfl) opening closing
        definitions)
  | variableDefinition target colon value directives => cases value <;> cases directives <;> rfl
  | variableRef hdollar hname => simp [ofNode?, name?, hdollar, hname]
  | defaultValue equals value => rfl
  | typeRef type bang htype => rfl
  | listType opening closing => rfl
  | namedType hname => simp [ofNode?, name?, hname]
  | selectionSet opening closing selections =>
    exact congrArg (fun selections => Item.selectionSet (.mk range selections))
      (filterMap_enclosed selection? (fun _ => rfl) (fun _ => rfl) opening closing selections)
  | @field label name arguments directives set hname =>
    have hnames : (optional .label label ++ (.token name :: (optional .arguments arguments ++
        (optional .directives directives ++ optional .selectionSet set)))).filterMap name? =
          [name] := by
      cases label <;> cases arguments <;> cases directives <;> cases set <;>
        simp [optional, List.filterMap_cons, name?, hname]
    simp only [ofNode?, hnames]
    cases label <;> cases arguments <;> cases directives <;> cases set <;> rfl
  | fieldAlias colon hname => simp [ofNode?, name?, hname]
  | arguments opening closing arguments =>
    exact congrArg (Item.arguments)
      (filterMap_enclosed argument? (fun _ => rfl) (fun _ => rfl) opening closing arguments)
  | argument colon value hname => simp [ofNode?, name?, hname] ; rfl
  | @fragmentSpread dots name directives hdots hname =>
    have hnames : (.token dots :: .token name :: optional .directives directives).filterMap name? =
        [name] := by
      cases directives <;> simp [optional, name?, hdots, hname]
    simp only [ofNode?, hnames]
    cases directives <;> rfl
  | inlineFragment dots condition directives set => cases condition <;> cases directives <;> rfl
  | typeCondition word name => rfl
  | directives directives =>
    exact congrArg Item.directives (filterMap_map_self directive? (fun _ => rfl) directives)
  | @directive sign name arguments hsign hname =>
    have hnames : (.token sign :: .token name :: optional .arguments arguments).filterMap name? =
        [name] := by
      cases arguments <;> simp [optional, name?, hsign, hname]
    simp only [ofNode?, hnames]
    cases arguments <;> rfl
  | scalar token hkind =>
    simp only [Grammar.scalarRules, List.mem_cons, List.not_mem_nil, or_false] at hkind
    rcases hkind with rfl | rfl | rfl | rfl | rfl | rfl <;> simp [ofNode?, text?]
  | listValue opening closing values =>
    exact congrArg (fun values => Item.value (.list range values))
      (filterMap_enclosed value? (fun _ => rfl) (fun _ => rfl) opening closing values)
  | objectValue opening closing fields =>
    exact congrArg (fun fields => Item.value (.object range fields))
      (filterMap_enclosed objectField? (fun _ => rfl) (fun _ => rfl) opening closing fields)
  | objectField colon value hname => simp [ofNode?, name?, hname] ; rfl

/-! ## What nodes of a kind can say -/

/-- What every node of the kind says, apart from what it is about.  A document is read as
a whole. -/
def Fits : NodeKind → Item → Prop
  | .document, _ => False
  | .operationDefinition, item | .fragmentDefinition, item => ∃ d, item = .definition d
  | .variableDefinitions, item => ∃ definitions, item = .variableDefinitions definitions
  | .variableDefinition, item => ∃ d, item = .variableDefinition d
  | .variableRef, item => ∃ target, item = .value (.reference target)
  | .defaultValue, item => ∃ value, item = .default value
  | .typeRef, item | .listType, item => item = .nothing
  | .namedType, item | .typeCondition, item => ∃ name, item = .typeName name
  | .selectionSet, item => ∃ set, item = .selectionSet set
  | .field, item | .fragmentSpread, item | .inlineFragment, item => ∃ s, item = .selection s
  | .fieldAlias, item => ∃ name, item = .label name
  | .arguments, item => ∃ arguments, item = .arguments arguments
  | .argument, item => ∃ a, item = .argument a
  | .directives, item => ∃ directives, item = .directives directives
  | .directive, item => ∃ d, item = .directive d
  | .intValue, item | .floatValue, item | .stringValue, item | .booleanValue, item
  | .nullValue, item | .enumValue, item | .listValue, item | .objectValue, item =>
    ∃ value, item = .value value
  | .objectField, item => ∃ f, item = .objectField f

theorem Composes.fits (h : Composes range head kind items item) : Fits kind item := by
  cases h with
  | typeRef => rfl
  | listType => rfl
  | scalar token hkind =>
    simp only [Grammar.scalarRules, List.mem_cons, List.not_mem_nil, or_false] at hkind
    rcases hkind with rfl | rfl | rfl | rfl | rfl | rfl <;> exact ⟨_, rfl⟩
  | _ => exact ⟨_, rfl⟩

end Item

end GuardedQuery
