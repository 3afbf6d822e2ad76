import GuardedQuery.Proofs.Tree.Basic

/-! # Trees with trivia in front of their tokens

In the tree of a document trivia stands in front of the next token, outside every node
that starts there.

- `Tree.Padded`: trees with trivia put in front of their tokens in this way.
- `Tree.Padded.allWithoutTrivia_eq`: without the trivia they are as they were.
- `Tree.padded_append_iff`: trees are padded one after the other.
-/

namespace GuardedQuery

namespace Tree

theorem allLeaves_map_leaf (tokens : List Token) : allLeaves (tokens.map leaf) = tokens := by
  induction tokens with
  | nil => rfl
  | cons token tokens ih => simp [ih]

theorem allWithoutTrivia_map_leaf {tokens : List Token} (h : ∀ token ∈ tokens, token.isTrivia) :
    allWithoutTrivia (tokens.map leaf) = [] := by
  induction tokens with
  | nil => rfl
  | cons token tokens ih =>
    rw [List.forall_mem_cons] at h
    simp [allWithoutTrivia, withoutTrivia, h.1, ih h.2]

/-- The first trees are the second ones with trivia in front of their tokens.  Trivia in
front of the first token of a node stands in front of the node. -/
inductive Padded : List Tree → List Tree → Prop where
  | nil : Padded [] []
  | leaf {trivia : List Token} {token : Token} {trees plain : List Tree}
      (htrivia : ∀ t ∈ trivia, t.isTrivia) (htoken : token.isTrivia = false)
      (h : Padded trees plain) :
      Padded (trivia.map .leaf ++ .leaf token :: trees) (.leaf token :: plain)
  | node {trivia : List Token} {kind : NodeKind} {inner children trees plain : List Tree}
      (htrivia : ∀ t ∈ trivia, t.isTrivia)
      (hfirst : ∃ t ∈ (allLeaves inner).head?, t.isTrivia = false)
      (hinner : Padded inner children) (h : Padded trees plain) :
      Padded (trivia.map .leaf ++ .node kind inner :: trees) (.node kind children :: plain)

variable {trees more plain rest : List Tree}

theorem Padded.append (h : Padded trees plain) (hmore : Padded more rest) :
    Padded (trees ++ more) (plain ++ rest) := by
  induction h with
  | nil => exact hmore
  | leaf htrivia htoken _ ih =>
    rw [List.append_assoc]
    exact .leaf htrivia htoken ih
  | node htrivia hfirst hinner _ _ ih =>
    rw [List.append_assoc]
    exact .node htrivia hfirst hinner ih

/-- Without the trivia the trees are as they were. -/
theorem Padded.allWithoutTrivia_eq (h : Padded trees plain) : allWithoutTrivia trees = plain := by
  induction h with
  | nil => rfl
  | leaf htrivia htoken _ ih =>
    simp [allWithoutTrivia, withoutTrivia, allWithoutTrivia_map_leaf htrivia, htoken, ih]
  | node htrivia _ _ _ ihinner ih =>
    simp [allWithoutTrivia, withoutTrivia, allWithoutTrivia_map_leaf htrivia, ihinner, ih]

/-- Trivia stands in front of tokens, so the last token is none. -/
theorem Padded.isTrivia_of_getLast? (h : Padded trees plain) :
    ∀ t ∈ (allLeaves trees).getLast?, t.isTrivia = false := by
  have hback {front back : List Token} (hfront : ∀ t ∈ front.getLast?, t.isTrivia = false)
      (hback : ∀ t ∈ back.getLast?, t.isTrivia = false) :
      ∀ t ∈ (front ++ back).getLast?, t.isTrivia = false := by
    intro t ht
    rw [List.getLast?_append, Option.mem_def, Option.or_eq_some_iff] at ht
    rcases ht with ht | ⟨-, ht⟩
    · exact hback t ht
    · exact hfront t ht
  induction h with
  | nil => simp
  | @leaf trivia token _ _ _ htoken _ ih =>
    rw [allLeaves_append, allLeaves_cons, ← List.append_assoc]
    refine hback ?_ ih
    rw [leaves_leaf, List.getLast?_concat]
    rintro t ⟨⟩
    exact htoken
  | node _ hfirst _ _ ihinner ih =>
    rw [allLeaves_append, allLeaves_cons, ← List.append_assoc]
    refine hback ?_ ih
    rw [leaves_node]
    obtain ⟨first, hfirst, -⟩ := hfirst
    obtain ⟨rest, hrest⟩ := List.head?_eq_some_iff.mp hfirst
    rwa [List.getLast?_append, Option.or_of_isSome (by simp [hrest])]

theorem padded_append_iff :
    Padded trees (plain ++ rest) ↔
      ∃ front back, trees = front ++ back ∧ Padded front plain ∧ Padded back rest := by
  constructor
  · intro h
    induction plain generalizing trees with
    | nil => exact ⟨[], trees, rfl, .nil, h⟩
    | cons tree plain ih =>
      cases h with
      | leaf htrivia htoken h =>
        obtain ⟨front, back, rfl, hfront, hback⟩ := ih h
        exact ⟨_, back, by simp, .leaf htrivia htoken hfront, hback⟩
      | node htrivia hfirst hinner h =>
        obtain ⟨front, back, rfl, hfront, hback⟩ := ih h
        exact ⟨_, back, by simp, .node htrivia hfirst hinner hfront, hback⟩
  · rintro ⟨front, back, rfl, hfront, hback⟩
    exact hfront.append hback

end Tree

end GuardedQuery
