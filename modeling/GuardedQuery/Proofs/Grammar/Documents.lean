import GuardedQuery.Proofs.Grammar.Derivation

/-! # Documents one behind the other

- `Derives.kind_ne_garbage`: no derivation holds garbage.
- `Derives.closes`: a document closes with a brace.
- `Derives.document_append`: two documents are a document.
-/

namespace GuardedQuery

namespace Grammar

open Pattern
open GuardedQuery.Tree (allLeaves)

variable {pattern : Pattern} {trees more : List Tree}

/-! ## Garbage -/

def Pattern.isClean : Pattern → Bool
  | empty | rule _ _ => true
  | token terminal => terminal.tokenKind ≠ .garbage
  | both first second => first.isClean && second.isClean
  | either left right => left.isClean && right.isClean
  | optional pattern | many pattern => pattern.isClean

theorem production_isClean (kind : NodeKind) (constant : Bool) :
    (production kind constant).isClean = true := by
  cases kind <;> cases constant <;> rfl

/-- No derivation holds garbage. -/
theorem Derives.kind_ne_garbage (h : Derives pattern trees) (hclean : pattern.isClean = true) :
    ∀ token ∈ allLeaves trees, token.kind ≠ .garbage := by
  induction h with
  | empty | absent | done => simp
  | token h =>
    have hkind := h.kind_eq
    rw [Token.lexeme_kind] at hkind
    simpa [isClean, hkind] using hclean
  | rule _ ih => simpa using ih (production_isClean _ _)
  | left _ ih =>
    rw [isClean, Bool.and_eq_true] at hclean
    exact ih hclean.1
  | right _ ih =>
    rw [isClean, Bool.and_eq_true] at hclean
    exact ih hclean.2
  | present _ ih => exact ih hclean
  | both _ _ ihfirst ihsecond =>
    rw [isClean, Bool.and_eq_true] at hclean
    rw [Tree.allLeaves_append, List.forall_mem_append]
    exact ⟨ihfirst hclean.1, ihsecond hclean.2⟩
  | more _ _ ih ihmore =>
    rw [Tree.allLeaves_append, List.forall_mem_append]
    exact ⟨ih hclean, ihmore hclean⟩

/-! ## The last brace -/

def Closes (trees : List Tree) : Prop :=
  ∃ token ∈ (allLeaves trees).getLast?, token.kind = .braceClose

theorem Closes.append_left (trees : List Tree) (h : Closes more) : Closes (trees ++ more) := by
  obtain ⟨token, htoken, hkind⟩ := h
  refine ⟨token, ?_, hkind⟩
  rw [Option.mem_def] at htoken
  rw [Tree.allLeaves_append, List.getLast?_append, htoken]
  rfl

theorem Derives.closes_selectionSet {constant : Bool}
    (h : Derives (.rule .selectionSet constant) trees) : Closes trees := by
  obtain ⟨children, hchildren, rfl⟩ := derives_rule.mp h
  obtain ⟨front, back, rfl, -, hback⟩ : ∃ front back, children = front ++ back ∧
      Derives (sequence [punctuator .braceOpen, selection, selection.many]) front ∧
      Derives (sequence [punctuator .braceClose]) back := derives_sequence_append.mp hchildren
  obtain ⟨token, hkind, rfl⟩ := derives_token.mp (derives_sequence_singleton.mp hback)
  refine ⟨token, ?_, hkind⟩
  simp

/-- Whatever comes before, a selection set at the end closes with a brace. -/
theorem Derives.closes_sequence {patterns : List Pattern}
    (h : Derives (sequence (patterns ++ [.rule .selectionSet false])) trees) : Closes trees := by
  obtain ⟨front, back, rfl, -, hback⟩ := derives_sequence_append.mp h
  exact (derives_sequence_singleton.mp hback).closes_selectionSet.append_left front

theorem closes_node {kind : NodeKind} : Closes [.node kind trees] ↔ Closes trees := by
  simp [Closes]

theorem Derives.closes_definition (h : Derives definition trees) : Closes trees := by
  rcases derives_either.mp h with h | h
  · obtain ⟨children, hchildren, rfl⟩ := derives_rule.mp h
    rw [closes_node]
    rcases derives_either.mp hchildren with h | h
    · exact h.closes_selectionSet
    · have hsequence : Derives (sequence ([operationType, name.optional,
          (Pattern.rule .variableDefinitions false).optional, directives false] ++
            [.rule .selectionSet false])) children := h
      exact hsequence.closes_sequence
  · obtain ⟨children, hchildren, rfl⟩ := derives_rule.mp h
    rw [closes_node]
    have hsequence : Derives (sequence ([.token (.word ["fragment"]), fragmentName,
        .rule .typeCondition false, directives false] ++ [.rule .selectionSet false])) children :=
      hchildren
    exact hsequence.closes_sequence

/-! ## Documents -/

theorem derives_document :
    Derives (production .document false) trees ↔
      ∃ front back, trees = front ++ back ∧ Derives definition front ∧
        Derives definition.many back := by
  rw [production, derives_sequence_cons]
  simp only [derives_sequence_singleton]

theorem Derives.many_append (h : Derives pattern.many trees) (hmore : Derives pattern.many more) :
    Derives pattern.many (trees ++ more) := by
  refine h.many_induction (motive := fun trees => Derives pattern.many (trees ++ more)) hmore ?_
  intro front back hfront _ ih
  rw [List.append_assoc]
  exact .more hfront ih

/-- Two documents are a document. -/
theorem Derives.document_append (h : Derives (production .document false) trees)
    (hmore : Derives (production .document false) more) :
    Derives (production .document false) (trees ++ more) := by
  obtain ⟨front, back, rfl, hfront, hback⟩ := derives_document.mp h
  obtain ⟨first, rest, rfl, hfirst, hrest⟩ := derives_document.mp hmore
  rw [List.append_assoc]
  exact derives_document.mpr ⟨front, _, rfl, hfront, hback.many_append (.more hfirst hrest)⟩

/-- A document closes with a brace. -/
theorem Derives.closes (h : Derives (production .document false) trees) : Closes trees := by
  obtain ⟨front, back, rfl, hfront, hback⟩ := derives_document.mp h
  refine hback.many_induction (motive := fun back => ∀ front, Closes front → Closes (front ++ back))
    ?_ ?_ front hfront.closes_definition
  · intro front hfront
    simpa using hfront
  · -- A further definition brings the last brace with it.
    intro first rest hfirst _ ih front _
    rw [← List.append_assoc]
    exact ih _ (hfirst.closes_definition.append_left front)

end Grammar

end GuardedQuery
