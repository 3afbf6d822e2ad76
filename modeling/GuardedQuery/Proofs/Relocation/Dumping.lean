import GuardedQuery.Proofs.Relocation.Basic
import GuardedQuery.Syntax.Dump

/-! # Plain dumps

A dump without trivia and positions shows nothing of where tokens stand.

- `Tree.pushAllLines_allWithoutTrivia`: trivia is not shown.
- `Tree.pushAllLines_relocateAll`: places are not shown.
-/

namespace GuardedQuery

namespace Tree

variable {r : Relocation}

theorem nodeLine_plain (tree : Tree) (kind : NodeKind) :
    DumpStyle.nodeLine {} tree kind = kind.label := by
  simp [DumpStyle.nodeLine, DumpStyle.span]

theorem pushAllLines_append (style : DumpStyle) (level : Nat) (lines : List String)
    (trees more : List Tree) :
    pushAllLines style level lines (trees ++ more) =
      pushAllLines style level (pushAllLines style level lines trees) more := by
  induction trees generalizing lines with
  | nil => rfl
  | cons tree trees ih => simp only [List.cons_append, pushAllLines, ih]

mutual

theorem pushAllLines_withoutTrivia (level : Nat) (lines : List String) : ∀ tree : Tree,
    pushAllLines {} level lines tree.withoutTrivia = pushLines {} level lines tree
  | leaf token => by
    cases h : token.isTrivia <;> simp [withoutTrivia, h, pushLines, pushAllLines]
  | node kind children => by
    simp only [withoutTrivia, pushAllLines, pushLines, nodeLine_plain,
      pushAllLines_allWithoutTrivia _ _ children]

/-- Trivia is not shown. -/
theorem pushAllLines_allWithoutTrivia (level : Nat) (lines : List String) :
    ∀ trees : List Tree,
    pushAllLines {} level lines (allWithoutTrivia trees) = pushAllLines {} level lines trees
  | [] => rfl
  | tree :: trees => by
    rw [allWithoutTrivia, pushAllLines_append, pushAllLines_withoutTrivia level lines tree,
      pushAllLines_allWithoutTrivia level _ trees, pushAllLines]

end

mutual

theorem pushLines_relocate (level : Nat) (lines : List String) : ∀ tree : Tree,
    pushLines {} level lines (tree.relocate r) = pushLines {} level lines tree
  | leaf _ => rfl
  | node kind children => by
    simp only [relocate, pushLines, nodeLine_plain, pushAllLines_relocateAll _ _ children]

/-- Places are not shown. -/
theorem pushAllLines_relocateAll (level : Nat) (lines : List String) : ∀ trees : List Tree,
    pushAllLines {} level lines (relocateAll r trees) = pushAllLines {} level lines trees
  | [] => rfl
  | tree :: trees => by
    rw [relocateAll, pushAllLines, pushAllLines, pushLines_relocate level lines tree,
      pushAllLines_relocateAll level _ trees]

end

/-- The plain dump of a node, from its children without trivia, wherever they stand. -/
theorem dump_of_allWithoutTrivia {children plain : List Tree} (kind : NodeKind)
    (h : allWithoutTrivia children = relocateAll r plain) :
    (node kind children).dump {} = (node kind plain).dump {} := by
  simp only [dump, dumpLines, pushLines, nodeLine_plain]
  rw [← pushAllLines_allWithoutTrivia, h, pushAllLines_relocateAll]

end Tree

end GuardedQuery
