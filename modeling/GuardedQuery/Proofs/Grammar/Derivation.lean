import GuardedQuery.Proofs.Grammar.Basic
import GuardedQuery.Proofs.Tree.Basic

/-! # Derivations

- Inversion: what the trees of a derivation look like, pattern by pattern.
- `Pattern.first`: the kinds of token that a derivation can start with.
- `Derives.proper`: derivations hold no trivia, no empty node and no inner document.
- `Derives.relabel`: derivations see only the lexemes of their tokens.
-/

namespace GuardedQuery

namespace Grammar

open Pattern

variable {pattern left right : Pattern} {trees : List Tree}

/-! ## Inversion -/

@[simp] theorem or_eq_either : (left ||| right) = .either left right := rfl

@[simp] theorem derives_empty : Derives .empty trees ↔ trees = [] := by
  constructor
  · intro h; cases h; rfl
  · rintro rfl; exact .empty

@[simp] theorem derives_token {terminal : Terminal} :
    Derives (.token terminal) trees ↔
      ∃ token, terminal.Admits token.lexeme ∧ trees = [.leaf token] := by
  constructor
  · intro h
    cases h with
    | token h => exact ⟨_, h, rfl⟩
  · rintro ⟨token, h, rfl⟩; exact .token h

@[simp] theorem derives_rule {kind : NodeKind} {constant : Bool} :
    Derives (.rule kind constant) trees ↔
      ∃ children, Derives (production kind constant) children ∧ trees = [.node kind children] := by
  constructor
  · intro h
    cases h with
    | rule h => exact ⟨_, h, rfl⟩
  · rintro ⟨children, h, rfl⟩; exact .rule h

theorem derives_both :
    Derives (.both left right) trees ↔
      ∃ front back, trees = front ++ back ∧ Derives left front ∧ Derives right back := by
  constructor
  · intro h
    cases h with
    | both hfirst hsecond => exact ⟨_, _, rfl, hfirst, hsecond⟩
  · rintro ⟨front, back, rfl, hfirst, hsecond⟩; exact .both hfirst hsecond

theorem derives_either :
    Derives (.either left right) trees ↔ Derives left trees ∨ Derives right trees := by
  constructor
  · intro h
    cases h with
    | left h => exact .inl h
    | right h => exact .inr h
  · rintro (h | h)
    · exact .left h
    · exact .right h

theorem derives_optional :
    Derives pattern.optional trees ↔ trees = [] ∨ Derives pattern trees := by
  constructor
  · intro h
    cases h with
    | absent => exact .inl rfl
    | present h => exact .inr h
  · rintro (rfl | h)
    · exact .absent
    · exact .present h

@[simp] theorem derives_sequence_nil : Derives (sequence []) trees ↔ trees = [] := derives_empty

theorem derives_sequence_cons {patterns : List Pattern} :
    Derives (sequence (pattern :: patterns)) trees ↔
      ∃ front back, trees = front ++ back ∧ Derives pattern front ∧
        Derives (sequence patterns) back := derives_both

@[simp] theorem derives_sequence_singleton :
    Derives (sequence [pattern]) trees ↔ Derives pattern trees := by
  simp [derives_sequence_cons]

theorem derives_sequence_token {terminal : Terminal} {patterns : List Pattern} :
    Derives (sequence (.token terminal :: patterns)) trees ↔
      ∃ token back, trees = .leaf token :: back ∧ terminal.Admits token.lexeme ∧
        Derives (sequence patterns) back := by
  rw [derives_sequence_cons]
  constructor
  · rintro ⟨_, back, rfl, hfront, hback⟩
    obtain ⟨token, hadmits, rfl⟩ := derives_token.1 hfront
    exact ⟨token, back, rfl, hadmits, hback⟩
  · rintro ⟨token, back, rfl, hadmits, hback⟩
    exact ⟨[.leaf token], back, rfl, .token hadmits, hback⟩

theorem derives_sequence_append {patterns more : List Pattern} :
    Derives (sequence (patterns ++ more)) trees ↔
      ∃ front back, trees = front ++ back ∧ Derives (sequence patterns) front ∧
        Derives (sequence more) back := by
  induction patterns generalizing trees with
  | nil =>
    constructor
    · intro h; exact ⟨[], trees, rfl, .empty, h⟩
    · rintro ⟨_, back, rfl, hfront, hback⟩
      rwa [derives_sequence_nil.1 hfront]
  | cons pattern patterns ih =>
    simp only [List.cons_append, derives_sequence_cons, ih]
    constructor
    · rintro ⟨front, _, rfl, hfront, middle, back, rfl, hmiddle, hback⟩
      exact ⟨front ++ middle, back, by simp, ⟨front, middle, rfl, hfront, hmiddle⟩, hback⟩
    · rintro ⟨_, back, rfl, ⟨front, middle, rfl, hfront, hmiddle⟩, hback⟩
      exact ⟨front, middle ++ back, by simp, hfront, middle, back, rfl, hmiddle, hback⟩

def literalRules : List NodeKind :=
  [.intValue, .floatValue, .stringValue, .booleanValue, .nullValue, .enumValue, .listValue,
    .objectValue]

theorem derives_literal {constant : Bool} :
    Derives (literal constant) trees ↔
      ∃ kind ∈ literalRules, Derives (.rule kind constant) trees := by
  simp only [literal, literalRules, or_eq_either, derives_either, List.mem_cons,
    List.not_mem_nil, or_false, exists_eq_or_imp, exists_eq_left, or_assoc]

theorem derives_selection :
    Derives selection trees ↔
      Derives (.rule .field false) trees ∨ Derives (.rule .fragmentSpread false) trees ∨
        Derives (.rule .inlineFragment false) trees := by
  simp only [selection, or_eq_either, derives_either, or_assoc]

/-- Induction over the rounds of a repetition. -/
theorem Derives.many_induction {motive : List Tree → Prop} (h : Derives pattern.many trees)
    (done : motive [])
    (more : ∀ front back, Derives pattern front → Derives pattern.many back → motive back →
      motive (front ++ back)) :
    motive trees := by
  -- The index must be a variable; `heq` then rules out all but the two cases.
  generalize heq : pattern.many = repeated at h
  induction h with
  | done => exact done
  | more h hmore _ ih =>
    cases heq
    exact more _ _ h hmore (ih rfl)
  | _ => cases heq

/-! ## First tokens -/

namespace Pattern

def nullable : Pattern → Bool
  | empty | optional _ | many _ => true
  | token _ | rule _ _ => false
  | both first second => first.nullable && second.nullable
  | either left right => left.nullable || right.nullable

def ruleFirst : NodeKind → List TokenKind
  | .document | .operationDefinition => [.braceOpen, .name]
  | .fragmentDefinition | .namedType | .field | .fieldAlias | .argument | .typeCondition
  | .booleanValue | .nullValue | .enumValue | .objectField => [.name]
  | .variableDefinitions | .arguments => [.parenOpen]
  | .variableDefinition | .variableRef => [.dollar]
  | .defaultValue => [.equals]
  | .typeRef => [.name, .bracketOpen]
  | .listType | .listValue => [.bracketOpen]
  | .selectionSet | .objectValue => [.braceOpen]
  | .fragmentSpread | .inlineFragment => [.spread]
  | .directives | .directive => [.atSign]
  | .intValue => [.intLit]
  | .floatValue => [.floatLit]
  | .stringValue => [.stringLit, .blockStringLit]

def first : Pattern → List TokenKind
  | empty => []
  | token terminal => [terminal.tokenKind]
  | rule kind _ => ruleFirst kind
  | both first second => first.first ++ if first.nullable then second.first else []
  | either left right => left.first ++ right.first
  | optional pattern | many pattern => pattern.first

def isInner : Pattern → Bool
  | empty => true
  | token terminal => !terminal.tokenKind.isTrivia
  | rule kind _ => kind ≠ .document
  | both first second => first.isInner && second.isInner
  | either left right => left.isInner && right.isInner
  | optional pattern | many pattern => pattern.isInner

end Pattern

theorem production_nullable (kind : NodeKind) (constant : Bool) :
    (production kind constant).nullable = false := by
  cases kind <;> cases constant <;> rfl

theorem production_first (kind : NodeKind) (constant : Bool) :
    (production kind constant).first ⊆ ruleFirst kind := by
  cases kind <;> cases constant <;> decide

theorem production_isInner (kind : NodeKind) (constant : Bool) :
    (production kind constant).isInner = true := by
  cases kind <;> cases constant <;> rfl

open GuardedQuery.Tree (allLeaves)

/-- A derivation of what is not nullable has a token. -/
theorem Derives.allLeaves_ne_nil (h : Derives pattern trees) (hnull : pattern.nullable = false) :
    allLeaves trees ≠ [] := by
  induction h with
  | empty | absent | done | present _ _ | more _ _ _ _ => cases hnull
  | token _ => simp
  | rule _ ih => simpa using ih (production_nullable _ _)
  | both _ _ ihfirst ihsecond =>
    simp only [nullable, Bool.and_eq_false_iff] at hnull
    rcases hnull with hnull | hnull
    · simp [ihfirst hnull]
    · simp [ihsecond hnull]
  | left _ ih => exact ih (by simp_all [nullable])
  | right _ ih => exact ih (by simp_all [nullable])

/-- The first token of a derivation is of one of the kinds in `first`. -/
theorem Derives.kind_mem_first (h : Derives pattern trees) :
    ∀ token ∈ (allLeaves trees).head?, token.kind ∈ pattern.first := by
  induction h with
  | empty | absent | done => simp
  | token h => simpa [Pattern.first] using h.kind_eq
  | rule _ ih =>
    intro token member
    exact production_first _ _ (ih token (by simpa using member))
  | both hfirst _ ihfirst ihsecond =>
    intro token member
    rw [Tree.allLeaves_append, List.head?_append, Option.mem_def, Option.or_eq_some_iff] at member
    simp only [Pattern.first, List.mem_append]
    rcases member with member | ⟨hnone, member⟩
    · exact .inl (ihfirst token member)
    · -- Without tokens, the first part is nullable.
      rw [List.head?_eq_none_iff] at hnone
      right
      rw [if_pos]
      · exact ihsecond token member
      · rw [← Bool.not_eq_false]
        exact fun hnull => hfirst.allLeaves_ne_nil hnull hnone
  | left _ ih => exact fun token member => List.mem_append_left _ (ih token member)
  | right _ ih => exact fun token member => List.mem_append_right _ (ih token member)
  | present _ ih => exact ih
  | more _ _ ih ihmore =>
    intro token member
    rw [Tree.allLeaves_append, List.head?_append, Option.mem_def, Option.or_eq_some_iff] at member
    rcases member with member | ⟨_, member⟩
    · exact ih token member
    · exact ihmore token member

/-! ## Proper trees -/

/-- A derivation holds no trivia, no node without tokens and no document below another. -/
theorem Derives.proper (h : Derives pattern trees) (hinner : pattern.isInner = true) :
    ∀ tree ∈ trees, tree.Proper := by
  induction h with
  | empty | absent | done => simp
  | token h =>
    intro tree member
    rw [List.mem_singleton] at member
    subst member
    refine .leaf ?_
    have hkind := h.kind_eq
    rw [Token.lexeme_kind] at hkind
    simpa [isInner, Token.isTrivia, hkind] using hinner
  | rule h ih =>
    intro tree member
    rw [List.mem_singleton] at member
    subst member
    exact .node (by simpa [isInner] using hinner)
      (h.allLeaves_ne_nil (production_nullable _ _)) (ih (production_isInner _ _))
  | both _ _ ihfirst ihsecond =>
    simp only [isInner, Bool.and_eq_true] at hinner
    intro tree member
    rcases List.mem_append.1 member with member | member
    · exact ihfirst hinner.1 tree member
    · exact ihsecond hinner.2 tree member
  | left _ ih => exact ih (by simp_all [isInner])
  | right _ ih => exact ih (by simp_all [isInner])
  | present _ ih => exact ih hinner
  | more _ _ ih ihmore =>
    intro tree member
    rcases List.mem_append.1 member with member | member
    · exact ih hinner tree member
    · exact ihmore hinner tree member

/-- The trees of a derivation have a common bound on their depth. -/
theorem Derives.within (h : Derives pattern trees) :
    ∃ bound, ∀ tree ∈ trees, tree.Within bound := by
  induction h with
  | empty | absent | done => exact ⟨0, by simp⟩
  | token _ => exact ⟨0, by simp [Tree.Within]⟩
  | rule _ ih =>
    obtain ⟨bound, hbound⟩ := ih
    exact ⟨bound + 1, by simpa [Tree.Within] using hbound⟩
  | left _ ih | right _ ih | present _ ih => exact ih
  | both _ _ ihfirst ihsecond | more _ _ ihfirst ihsecond =>
    obtain ⟨m, hm⟩ := ihfirst
    obtain ⟨n, hn⟩ := ihsecond
    refine ⟨max m n, fun tree member => ?_⟩
    rcases List.mem_append.1 member with member | member
    · exact (hm tree member).mono (Nat.le_max_left m n)
    · exact (hn tree member).mono (Nat.le_max_right m n)

/-! ## Lexemes -/

/-- Tokens with the lexemes of a derivation have a derivation of their own. -/
theorem Derives.relabel (h : Derives pattern trees) {tokens : List Token}
    (hlexemes : tokens.map Token.lexeme = (allLeaves trees).map Token.lexeme) :
    ∃ relabelled, Derives pattern relabelled ∧ allLeaves relabelled = tokens := by
  induction h generalizing tokens with
  | empty => exact ⟨[], .empty, by simpa using hlexemes.symm⟩
  | absent => exact ⟨[], .absent, by simpa using hlexemes.symm⟩
  | done => exact ⟨[], .done, by simpa using hlexemes.symm⟩
  | token h =>
    obtain ⟨token, rfl, heq⟩ : ∃ token, tokens = [token] ∧ token.lexeme = _ := by
      simpa [List.map_eq_cons_iff] using hlexemes
    exact ⟨[.leaf token], .token (heq ▸ h), by simp⟩
  | rule _ ih =>
    obtain ⟨children, hchildren, hleaves⟩ := ih (by simpa using hlexemes)
    exact ⟨_, .rule hchildren, by simpa using hleaves⟩
  | left _ ih =>
    obtain ⟨relabelled, h, hleaves⟩ := ih hlexemes
    exact ⟨relabelled, .left h, hleaves⟩
  | right _ ih =>
    obtain ⟨relabelled, h, hleaves⟩ := ih hlexemes
    exact ⟨relabelled, .right h, hleaves⟩
  | present _ ih =>
    obtain ⟨relabelled, h, hleaves⟩ := ih hlexemes
    exact ⟨relabelled, .present h, hleaves⟩
  | both _ _ ihfirst ihsecond =>
    rw [Tree.allLeaves_append, List.map_append, List.map_eq_append_iff] at hlexemes
    obtain ⟨front, back, rfl, hfront, hback⟩ := hlexemes
    obtain ⟨_, hfirst, rfl⟩ := ihfirst hfront
    obtain ⟨_, hsecond, rfl⟩ := ihsecond hback
    exact ⟨_, .both hfirst hsecond, by simp⟩
  | more _ _ ih ihmore =>
    rw [Tree.allLeaves_append, List.map_append, List.map_eq_append_iff] at hlexemes
    obtain ⟨front, back, rfl, hfront, hback⟩ := hlexemes
    obtain ⟨_, h, rfl⟩ := ih hfront
    obtain ⟨_, hmore, rfl⟩ := ihmore hback
    exact ⟨_, .more h hmore, by simp⟩

/-- Tokens are a document if they are the leaves of the root of a derivation. -/
theorem isDocument_iff {tokens : List Token} :
    IsDocument (tokens.map Token.lexeme) ↔
      ∃ children, Derives (production .document false) children ∧ allLeaves children = tokens := by
  constructor
  · rintro ⟨tree, h, hlexemes⟩
    obtain ⟨children, hchildren, heq⟩ := derives_rule.1 h
    cases heq
    exact hchildren.relabel (by simpa using hlexemes.symm)
  · rintro ⟨children, h, rfl⟩
    exact ⟨.node .document children, .rule h, by simp⟩

end Grammar

end GuardedQuery
