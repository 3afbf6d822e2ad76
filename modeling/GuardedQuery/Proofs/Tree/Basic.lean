import GuardedQuery.Syntax.Tree

/-! # Trees and what they stand for

- `Tree.allLeaves`: the tokens of several trees.
- `Tree.withoutTrivia`: the tree with its leaves of trivia left out.
- `Tree.events`: the walk through a tree, written as the events of a parse.
- `Tree.Within`: a bound on the depth of a tree.
-/

namespace GuardedQuery

/-! ## Significant tokens -/

@[simp] theorem significant_nil : significant [] = [] := rfl

theorem significant_cons (token : Token) (tokens : List Token) :
    significant (token :: tokens) =
      if token.isTrivia then significant tokens else token :: significant tokens := by
  cases h : token.isTrivia <;> simp [significant, h]

@[simp] theorem significant_append (tokens more : List Token) :
    significant (tokens ++ more) = significant tokens ++ significant more := by
  simp [significant]

theorem isTrivia_of_mem_significant {token : Token} {tokens : List Token}
    (h : token ∈ significant tokens) : token.isTrivia = false := by
  simpa using (List.mem_filter.1 h).2

theorem significant_eq_self {tokens : List Token}
    (h : ∀ token ∈ tokens, token.isTrivia = false) : significant tokens = tokens := by
  rw [significant, List.filter_eq_self]
  intro token member
  simp [h token member]

namespace Tree

/-! ## Leaves -/

mutual

theorem pushLeaves_eq (tokens : List Token) :
    ∀ tree : Tree, pushLeaves tokens tree = (pushLeaves [] tree) ++ tokens
  | leaf _ => rfl
  | node _ children => pushAllLeaves_eq tokens children

theorem pushAllLeaves_eq (tokens : List Token) :
    ∀ trees : List Tree, pushAllLeaves tokens trees = (pushAllLeaves [] trees) ++ tokens
  | [] => rfl
  | tree :: trees => by
    simp only [pushAllLeaves]
    rw [pushAllLeaves_eq (pushLeaves tokens tree), pushAllLeaves_eq (pushLeaves [] tree),
      pushLeaves_eq tokens tree, List.append_assoc]

end

def allLeaves (trees : List Tree) : List Token :=
  trees.flatMap leaves

@[simp] theorem allLeaves_nil : allLeaves [] = [] := rfl

@[simp] theorem allLeaves_cons (tree : Tree) (trees : List Tree) :
    allLeaves (tree :: trees) = tree.leaves ++ allLeaves trees := rfl

@[simp] theorem allLeaves_append (trees more : List Tree) :
    allLeaves (trees ++ more) = allLeaves trees ++ allLeaves more := by
  simp [allLeaves]

@[simp] theorem leaves_leaf (token : Token) : (leaf token).leaves = [token] := rfl

theorem pushAllLeaves_reverse (trees : List Tree) :
    (pushAllLeaves [] trees).reverse = allLeaves trees := by
  induction trees with
  | nil => rfl
  | cons tree trees ih =>
    rw [pushAllLeaves, pushAllLeaves_eq, List.reverse_append, ih]
    rfl

@[simp] theorem leaves_node (kind : NodeKind) (children : List Tree) :
    (node kind children).leaves = allLeaves children :=
  pushAllLeaves_reverse children

/-! ## Trees without trivia -/

mutual

def withoutTrivia : Tree → List Tree
  | leaf token => if token.isTrivia then [] else [leaf token]
  | node kind children => [node kind (allWithoutTrivia children)]

def allWithoutTrivia : List Tree → List Tree
  | [] => []
  | tree :: trees => withoutTrivia tree ++ allWithoutTrivia trees

end

@[simp] theorem allWithoutTrivia_append (trees more : List Tree) :
    allWithoutTrivia (trees ++ more) = allWithoutTrivia trees ++ allWithoutTrivia more := by
  induction trees with
  | nil => rfl
  | cons tree trees ih => simp [allWithoutTrivia, ih]

mutual

theorem allLeaves_withoutTrivia :
    ∀ tree : Tree, allLeaves tree.withoutTrivia = significant tree.leaves
  | leaf token => by
    cases h : token.isTrivia <;> simp [withoutTrivia, significant_cons, h]
  | node kind children => by
    simp [withoutTrivia, allLeaves_allWithoutTrivia children]

theorem allLeaves_allWithoutTrivia :
    ∀ trees : List Tree, allLeaves (allWithoutTrivia trees) = significant (allLeaves trees)
  | [] => rfl
  | tree :: trees => by
    simp [allWithoutTrivia, allLeaves_withoutTrivia tree, allLeaves_allWithoutTrivia trees]

end

/-! ## The walk through a tree -/

/-- The entry of a rule at the first significant token, if there is one. -/
def entry (kind : NodeKind) (tokens : List Token) : List Event :=
  (significant tokens).head?.toList.map fun first => .enter kind first.range first.text

theorem entry_append {tokens : List Token} (kind : NodeKind) (more : List Token)
    (h : significant tokens ≠ []) : entry kind (tokens ++ more) = entry kind tokens := by
  obtain ⟨first, rest, hfirst⟩ := List.exists_cons_of_ne_nil h
  simp [entry, hfirst]

mutual

/-- The walk through a tree: the entry before the children of a node, its exit behind
them, and significant leaves as they come. -/
def events : Tree → List Event
  | leaf token =>
    if token.isTrivia then [] else [.terminal token.kind token.range token.text]
  | node kind children =>
    entry kind (allLeaves children) ++ allEvents children ++ [.exit kind]

def allEvents : List Tree → List Event
  | [] => []
  | tree :: trees => events tree ++ allEvents trees

end

@[simp] theorem allEvents_append (trees more : List Tree) :
    allEvents (trees ++ more) = allEvents trees ++ allEvents more := by
  induction trees with
  | nil => rfl
  | cons tree trees ih => simp [allEvents, ih]

theorem entry_significant (kind : NodeKind) (tokens : List Token) :
    entry kind (significant tokens) = entry kind tokens := by
  simp only [entry]
  rw [significant_eq_self fun _ => isTrivia_of_mem_significant]

mutual

/-- The walk passes over trivia. -/
theorem allEvents_withoutTrivia : ∀ tree : Tree, allEvents tree.withoutTrivia = tree.events
  | leaf token => by
    cases h : token.isTrivia <;> simp [withoutTrivia, events, allEvents, h]
  | node kind children => by
    simp [withoutTrivia, events, allEvents, allEvents_allWithoutTrivia children,
      allLeaves_allWithoutTrivia, entry_significant]

theorem allEvents_allWithoutTrivia :
    ∀ trees : List Tree, allEvents (allWithoutTrivia trees) = allEvents trees
  | [] => rfl
  | tree :: trees => by
    simp [allWithoutTrivia, allEvents, allEvents_withoutTrivia tree,
      allEvents_allWithoutTrivia trees]

end

/-! ## Depth -/

def Within : Nat → Tree → Prop
  | _, leaf _ => True
  | 0, node _ _ => False
  | bound + 1, node _ children => ∀ child ∈ children, Within bound child

theorem Within.mono {bound more : Nat} {tree : Tree} (h : tree.Within bound)
    (hle : bound ≤ more) : tree.Within more := by
  induction bound generalizing tree more with
  | zero =>
    cases tree with
    | leaf token => simp [Within]
    | node kind children => simp [Within] at h
  | succ bound ih =>
    cases tree with
    | leaf token => simp [Within]
    | node kind children =>
      obtain ⟨more, rfl⟩ : ∃ n, more = n + 1 := ⟨more - 1, by omega⟩
      simp only [Within] at h ⊢
      exact fun child member => ih (h child member) (by omega)

/-! ## Trees that a run builds -/

/-- A significant leaf, or a node below the root with a leaf and only such children. -/
inductive Proper : Tree → Prop where
  | leaf {token : Token} (h : token.isTrivia = false) : Proper (.leaf token)
  | node {kind : NodeKind} {children : List Tree} (hkind : kind ≠ .document)
      (hleaves : allLeaves children ≠ []) (hchildren : ∀ child ∈ children, Proper child) :
      Proper (.node kind children)

theorem Proper.isTrivia_eq_false {tree : Tree} (h : tree.Proper) :
    ∀ token ∈ tree.leaves, token.isTrivia = false := by
  induction h with
  | leaf h =>
    intro token member
    rw [leaves_leaf, List.mem_singleton] at member
    exact member ▸ h
  | node _ _ _ ih =>
    intro token member
    rw [leaves_node, allLeaves, List.mem_flatMap] at member
    obtain ⟨child, hchild, member⟩ := member
    exact ih child hchild token member

theorem significant_allLeaves {trees : List Tree} (h : ∀ tree ∈ trees, tree.Proper) :
    significant (allLeaves trees) = allLeaves trees := by
  refine significant_eq_self fun token member => ?_
  obtain ⟨tree, htree, member⟩ := List.mem_flatMap.1 member
  exact (h tree htree).isTrivia_eq_false token member

theorem entry_allLeaves {trees : List Tree} {first : Token} {rest : List Token} (kind : NodeKind)
    (h : ∀ tree ∈ trees, tree.Proper) (hleaves : allLeaves trees = first :: rest) :
    entry kind (allLeaves trees) = [.enter kind first.range first.text] := by
  rw [entry, significant_allLeaves h, hleaves]
  rfl

end Tree

end GuardedQuery
