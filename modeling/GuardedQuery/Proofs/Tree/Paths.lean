import GuardedQuery.Proofs.Tree.Basic

/-! # Paths in trees

A path says which child to go to, from the root down.  A node holds what stands at the
paths that go on from its own, so the lowest node that holds two leaves is at the longest
path that both go on from.

- `Tree.at?`: the tree at a path.
- `Tree.leafPaths`: the leaves with their paths, in order.
- `Tree.mem_leafPaths_iff`: these are all leaves.
- `Tree.leafPaths_split`: the leaves of a node stand together.
- `Tree.LowestAbove`: the path of the lowest node above two others.
-/

namespace GuardedQuery

namespace Tree

/-! ## Descending -/

def at? (tree : Tree) : List Nat → Option Tree
  | [] => some tree
  | index :: path =>
    match tree with
    | leaf _ => none
    | node _ children => children[index]?.bind (·.at? path)

variable {tree inner : Tree} {path : List Nat} {token : Token}

theorem at?_append (tree : Tree) (path more : List Nat) :
    tree.at? (path ++ more) = (tree.at? path).bind (·.at? more) := by
  induction path generalizing tree with
  | nil => rfl
  | cons index path ih =>
    cases tree with
    | leaf token => rfl
    | node kind children =>
      rw [List.cons_append, at?, at?]
      cases children[index]? with
      | none => rfl
      | some child => exact ih child

/-- Nothing stands below a leaf. -/
theorem at?_leaf_eq_some (h : (leaf token).at? path = some inner) : path = [] := by
  cases path with
  | nil => rfl
  | cons index path => cases h

theorem at?_leaf_ne_node {kind : NodeKind} {children : List Tree} :
    (leaf token).at? path ≠ some (node kind children) := by
  intro h
  cases at?_leaf_eq_some h
  cases h

/-- Above a leaf that is not the root there is a node. -/
theorem exists_parent (h : tree.at? path = some (leaf token)) (hpath : path ≠ []) :
    ∃ kind children, tree.at? path.dropLast = some (node kind children) := by
  rw [← List.dropLast_concat_getLast hpath, at?_append] at h
  obtain ⟨parent, hparent, hchild⟩ := Option.bind_eq_some_iff.1 h
  cases parent with
  | leaf other => cases hchild
  | node kind children => exact ⟨kind, children, hparent⟩

/-! ## Leaves and their paths -/

mutual

def leafPaths : Tree → List (List Nat × Token)
  | leaf token => [([], token)]
  | node _ children => allLeafPaths 0 children

def allLeafPaths (index : Nat) : List Tree → List (List Nat × Token)
  | [] => []
  | tree :: trees =>
    tree.leafPaths.map (fun place => (index :: place.1, place.2)) ++ allLeafPaths (index + 1) trees

end

mutual

theorem map_snd_leafPaths : ∀ tree : Tree, tree.leafPaths.map (·.2) = tree.leaves
  | leaf _ => rfl
  | node _ children => by rw [leafPaths, map_snd_allLeafPaths 0 children, leaves_node]

theorem map_snd_allLeafPaths (index : Nat) :
    ∀ trees : List Tree, (allLeafPaths index trees).map (·.2) = allLeaves trees
  | [] => rfl
  | tree :: trees => by
    rw [allLeafPaths, List.map_append, List.map_map, map_snd_allLeafPaths (index + 1) trees,
      allLeaves_cons, ← map_snd_leafPaths tree]
    rfl

end

theorem allLeafPaths_append (index : Nat) (trees more : List Tree) :
    allLeafPaths index (trees ++ more) =
      allLeafPaths index trees ++ allLeafPaths (index + trees.length) more := by
  induction trees generalizing index with
  | nil => rfl
  | cons tree trees ih =>
    rw [List.cons_append, allLeafPaths, ih, allLeafPaths, List.append_assoc, List.length_cons,
      Nat.add_right_comm, Nat.add_assoc]

/-- A leaf of several trees stands in one of them. -/
theorem exists_of_mem_allLeafPaths {start : Nat} {trees : List Tree}
    {place : List Nat × Token} (h : place ∈ allLeafPaths start trees) :
    ∃ index child rest, trees[index]? = some child ∧ place.1 = (start + index) :: rest ∧
      (rest, place.2) ∈ child.leafPaths := by
  induction trees generalizing start with
  | nil => cases h
  | cons tree trees ih =>
    rcases List.mem_append.1 h with h | h
    · obtain ⟨inner, hinner, rfl⟩ := List.mem_map.1 h
      exact ⟨0, tree, inner.1, rfl, rfl, hinner⟩
    · obtain ⟨index, child, rest, hchild, hpath, hrest⟩ := ih h
      refine ⟨index + 1, child, rest, hchild, ?_, hrest⟩
      rw [hpath, Nat.add_assoc, Nat.add_comm 1]

theorem at?_of_mem_leafPaths (h : (path, token) ∈ tree.leafPaths) :
    tree.at? path = some (leaf token) := by
  induction path generalizing tree with
  | nil =>
    cases tree with
    | leaf other =>
      cases List.mem_singleton.1 h
      rfl
    | node kind children =>
      obtain ⟨_, _, _, -, hpath, -⟩ := exists_of_mem_allLeafPaths h
      cases hpath
  | cons index path ih =>
    cases tree with
    | leaf other => cases List.mem_singleton.1 h
    | node kind children =>
      obtain ⟨number, child, rest, hchild, hpath, hrest⟩ := exists_of_mem_allLeafPaths h
      rw [Nat.zero_add, List.cons.injEq] at hpath
      obtain ⟨rfl, rfl⟩ := hpath
      rw [at?, hchild]
      exact ih hrest

/-- Leaves of a child that are not below a path are not below it in the parent. -/
theorem avoids_child {index : Nat} {places : List (List Nat × Token)}
    (h : ∀ place ∈ places, ¬path <+: place.1) :
    ∀ place ∈ places.map fun place => (index :: place.1, place.2), ¬index :: path <+: place.1 := by
  intro place hplace hstarts
  obtain ⟨own, hown, rfl⟩ := List.mem_map.1 hplace
  exact h own hown (List.cons_prefix_cons.1 hstarts).2

/-- Leaves of trees with other numbers are not below a child. -/
theorem avoids_allLeafPaths {index start : Nat} {trees : List Tree}
    (h : ∀ number < trees.length, start + number ≠ index) :
    ∀ place ∈ allLeafPaths start trees, ¬index :: path <+: place.1 := by
  intro place hplace hstarts
  obtain ⟨number, _, rest, hnumbered, hpath, -⟩ := exists_of_mem_allLeafPaths hplace
  rw [hpath, List.cons_prefix_cons] at hstarts
  exact h number (List.getElem?_eq_some_iff.1 hnumbered).1 hstarts.1.symm

/-- The leaves of an inner tree stand together: no leaf in front of them or behind them has
a path that goes on from there. -/
theorem leafPaths_split (h : tree.at? path = some inner) :
    ∃ front back,
      tree.leafPaths =
        front ++ (inner.leafPaths.map (fun place => (path ++ place.1, place.2)) ++ back) ∧
      (∀ place ∈ front, ¬path <+: place.1) ∧ ∀ place ∈ back, ¬path <+: place.1 := by
  induction path generalizing tree with
  | nil =>
    cases h
    exact ⟨[], [], by simp, nofun, nofun⟩
  | cons index path ih =>
    cases tree with
    | leaf token => cases h
    | node kind children =>
      obtain ⟨child, hchild, hinner⟩ := Option.bind_eq_some_iff.1 h
      obtain ⟨hindex, rfl⟩ := List.getElem?_eq_some_iff.1 hchild
      obtain ⟨front, back, hsplit, hfront, hback⟩ := ih hinner
      refine ⟨allLeafPaths 0 (children.take index) ++
          front.map (fun place => (index :: place.1, place.2)),
        back.map (fun place => (index :: place.1, place.2)) ++
          allLeafPaths (index + 1) (children.drop (index + 1)), ?_, ?_, ?_⟩
      · have hchildren : children =
            children.take index ++ children[index] :: children.drop (index + 1) := by
          rw [List.getElem_cons_drop, List.take_append_drop]
        have hlength : (children.take index).length = index :=
          List.length_take_of_le (Nat.le_of_lt hindex)
        rw [leafPaths, hchildren]
        rw [allLeafPaths_append, hlength, Nat.zero_add, allLeafPaths, ← hchildren, hsplit]
        simp
      · refine List.forall_mem_append.2 ⟨avoids_allLeafPaths fun number hnumber => ?_,
          avoids_child hfront⟩
        rw [List.length_take_of_le (Nat.le_of_lt hindex)] at hnumber
        omega
      · refine List.forall_mem_append.2 ⟨avoids_child hback, avoids_allLeafPaths fun number _ => ?_⟩
        omega

theorem mem_leafPaths_iff : (path, token) ∈ tree.leafPaths ↔ tree.at? path = some (leaf token) := by
  refine ⟨at?_of_mem_leafPaths, fun h => ?_⟩
  obtain ⟨front, back, hsplit, -⟩ := leafPaths_split h
  rw [hsplit]
  simp [leafPaths]

/-- A list with one block of members, split at one of them. -/
theorem split_block {α : Type} {p : α → Prop} {x : α} {front back outer block rest : List α}
    (h : front ++ x :: back = outer ++ (block ++ rest)) (hx : p x) (houter : ∀ y ∈ outer, ¬p y)
    (hrest : ∀ y ∈ rest, ¬p y) :
    ∃ before after, front = outer ++ before ∧ block = before ++ x :: after ∧ back = after ++ rest := by
  have hfirst : ∃ before, front = outer ++ before ∧ block ++ rest = before ++ x :: back := by
    rcases List.append_eq_append_iff.1 h with ⟨more, hmore, hrest⟩ | ⟨before, hbefore, hrest⟩
    · cases more with
      | nil => exact ⟨[], by simpa using hmore.symm, by simpa using hrest.symm⟩
      | cons y more =>
        obtain ⟨rfl, -⟩ := List.cons.inj hrest
        exact absurd hx (houter x (by simp [hmore]))
    · exact ⟨before, hbefore, hrest⟩
  obtain ⟨before, rfl, hbefore⟩ := hfirst
  rcases List.append_eq_append_iff.1 hbefore with ⟨more, -, hmore⟩ | ⟨more, hblock, hmore⟩
  · exact absurd hx (hrest x (by simp [hmore]))
  · cases more with
    | nil =>
      rw [List.nil_append] at hmore
      exact absurd hx (hrest x (hmore ▸ List.mem_cons_self))
    | cons y after =>
      obtain ⟨rfl, hback⟩ := List.cons.inj hmore
      exact ⟨before, after, rfl, hblock, hback⟩

/-! ## The lowest node above -/

def LowestAbove (path first second : List Nat) : Prop :=
  path <+: first ∧ path <+: second ∧
    ∀ other, other <+: first → other <+: second → other <+: path

/-- What stands between two leaves below a node stands below that node. -/
theorem isPrefix_of_between {first second place : List Nat × Token}
    {outer between rest : List (List Nat × Token)}
    (h : tree.leafPaths = outer ++ first :: (between ++ second :: rest))
    (hfirst : path <+: first.1) (hsecond : path <+: second.1) (hplace : place ∈ between) :
    path <+: place.1 := by
  have hat : ∃ inner, tree.at? path = some inner := by
    obtain ⟨more, hmore⟩ := hfirst
    have hleaf : tree.at? first.1 = some (leaf first.2) := by
      rw [← mem_leafPaths_iff, h]
      simp
    rw [← hmore, at?_append] at hleaf
    obtain ⟨inner, hinner, -⟩ := Option.bind_eq_some_iff.1 hleaf
    exact ⟨inner, hinner⟩
  obtain ⟨inner, hinner⟩ := hat
  obtain ⟨front, back, hblock, hfront, hback⟩ := leafPaths_split hinner
  rw [h] at hblock
  obtain ⟨before, after, -, hsplit, hrest⟩ := split_block hblock hfirst hfront hback
  rw [← List.nil_append (after ++ back)] at hrest
  obtain ⟨own, more, rfl, rfl, -⟩ := split_block hrest hsecond (by simp) hback
  have hmem : place ∈ inner.leafPaths.map fun place => (path ++ place.1, place.2) := by
    rw [hsplit]
    simp [hplace]
  obtain ⟨own, -, rfl⟩ := List.mem_map.1 hmem
  exact List.prefix_append _ _

/-- No leaf stands below another one. -/
theorem eq_of_isPrefix {place other : List Nat × Token} (h : place ∈ tree.leafPaths)
    (hother : other ∈ tree.leafPaths) (hstarts : place.1 <+: other.1) : place = other := by
  obtain ⟨more, hmore⟩ := hstarts
  have hat := at?_of_mem_leafPaths hother
  rw [← hmore, at?_append, at?_of_mem_leafPaths h, Option.bind_some] at hat
  obtain rfl := at?_leaf_eq_some hat
  rw [List.append_nil] at hmore
  exact Prod.ext hmore (Tree.leaf.inj (Option.some.inj hat))

end Tree

end GuardedQuery
