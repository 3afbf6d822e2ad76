import GuardedQuery.Proofs.Tree.Padding

/-! # Assembling a tree from the walk through it

A tree is put together from the tokens and the events alone.  The events of a walk give
the tree back, with the trivia between its tokens added.

- `Assembly.addAll`: adds several trees to the innermost open node.
- `Tree.Proper.adds`: the walk through a tree adds the tree.
- `assemble_padded`, `assemble_allEvents`: the walk through a document assembles the document.
-/

namespace GuardedQuery

open GuardedQuery.Tree

namespace Assembly

/-! ## Additions -/

def addAll (assembly : Assembly) (trees : List Tree) : Assembly :=
  trees.foldl add assembly

variable {assembly : Assembly}

theorem addAll_append (trees more : List Tree) :
    assembly.addAll (trees ++ more) = (assembly.addAll trees).addAll more :=
  List.foldl_append

theorem addAll_singleton (tree : Tree) : assembly.addAll [tree] = assembly.add tree := rfl

/-- Which tokens have no place yet makes no difference to additions. -/
theorem add_with_unplaced (assembly : Assembly) (tree : Tree) (unplaced : List Token) :
    { assembly with unplaced }.add tree = { assembly.add tree with unplaced } := by
  simp only [add]
  split <;> rfl

theorem addAll_with_unplaced (trees : List Tree) (unplaced : List Token) :
    { assembly with unplaced }.addAll trees = { assembly.addAll trees with unplaced } := by
  induction trees generalizing assembly with
  | nil => rfl
  | cons tree trees ih =>
    simp only [addAll, List.foldl_cons] at ih ⊢
    rw [add_with_unplaced, ih]

/-- Children added between opening and closing a node make up the node. -/
theorem closeNode_addAll (kind : NodeKind) (trees : List Tree) :
    ((assembly.openNode kind).addAll trees).closeNode = assembly.add (.node kind trees) := by
  have hopen (inner : List Tree) :
      ({ assembly with openNodes := ⟨kind, inner⟩ :: assembly.openNodes } : Assembly).addAll trees =
        { assembly with openNodes := ⟨kind, trees.reverse ++ inner⟩ :: assembly.openNodes } := by
    induction trees generalizing inner with
    | nil => rfl
    | cons tree trees ih =>
      have hadd := ih (tree :: inner)
      simp only [addAll, List.foldl_cons, add, List.reverse_cons, List.append_assoc,
        List.singleton_append] at hadd ⊢
      exact hadd
  rw [openNode, hopen, List.append_nil]
  simp [closeNode]

theorem closeNode_with_unplaced (unplaced : List Token) :
    { assembly with unplaced }.closeNode = { assembly.closeNode with unplaced } := by
  simp only [closeNode]
  split
  · rfl
  · exact add_with_unplaced { assembly with openNodes := _ } _ _

/-- What is added when no node is open belongs to the root. -/
theorem addAll_of_closed (trees : List Tree) (hopen : assembly.openNodes = []) :
    assembly.addAll trees = { assembly with root := trees.reverse ++ assembly.root } := by
  induction trees generalizing assembly with
  | nil => rfl
  | cons tree trees ih =>
    have hadd : assembly.add tree = { assembly with root := tree :: assembly.root } := by
      simp [add, hopen]
    have hnext : ({ assembly with root := tree :: assembly.root } : Assembly).openNodes = [] :=
      hopen
    simp only [addAll, List.foldl_cons] at ih ⊢
    rw [hadd, ih hnext]
    simp

theorem finish_addAll {trees : List Tree} {unplaced : List Token}
    (hopen : assembly.openNodes = []) :
    ({ assembly.addAll trees with unplaced } : Assembly).finish =
      assembly.root.reverse ++ trees ++ unplaced.map .leaf := by
  have hleaves (children : List Tree) :
      unplaced.foldl (fun children token => .leaf token :: children) children =
        (unplaced.map .leaf).reverse ++ children := by
    induction unplaced generalizing children with
    | nil => rfl
    | cons token unplaced ih => simp [ih]
  rw [finish, addAll_of_closed trees hopen]
  simp [hopen, hleaves]

theorem follow_enter {kind : NodeKind} (hkind : kind ≠ .document) (range : ByteRange)
    (text : String) :
    assembly.follow (.enter kind range text) = assembly.addTrivia.openNode kind := by
  cases kind with
  | document => exact (hkind rfl).elim
  | _ => rfl

theorem follow_exit {kind : NodeKind} (hkind : kind ≠ .document) :
    assembly.follow (.exit kind) = assembly.closeNode := by
  cases kind with
  | document => exact (hkind rfl).elim
  | _ => rfl

/-! ## Trivia in front of a token -/

/-- The first significant token stands behind trivia only. -/
theorem exists_trivia_of_significant {tokens rest : List Token} {token : Token}
    (h : significant tokens = token :: rest) :
    ∃ trivia more, tokens = trivia ++ token :: more ∧ (∀ t ∈ trivia, t.isTrivia) ∧
      token.isTrivia = false ∧ significant more = rest := by
  induction tokens with
  | nil => cases h
  | cons first tokens ih =>
    rw [significant_cons] at h
    by_cases hfirst : first.isTrivia
    · rw [if_pos hfirst] at h
      obtain ⟨trivia, more, rfl, htrivia, htoken, hmore⟩ := ih h
      exact ⟨first :: trivia, more, rfl, List.forall_mem_cons.2 ⟨hfirst, htrivia⟩, htoken, hmore⟩
    · rw [if_neg hfirst] at h
      obtain ⟨rfl, hmore⟩ := List.cons.inj h
      exact ⟨[], tokens, rfl, by simp, by simpa using hfirst, hmore⟩

theorem addTrivia_of_head? {trivia more : List Token}
    (hunplaced : assembly.unplaced = trivia ++ more)
    (htrivia : ∀ t ∈ trivia, t.isTrivia) (hmore : ∀ t ∈ more.head?, t.isTrivia = false) :
    assembly.addTrivia = { assembly.addAll (trivia.map .leaf) with unplaced := more } := by
  have hrest : more.takeWhile (·.isTrivia) = [] ∧ more.dropWhile (·.isTrivia) = more := by
    cases more with
    | nil => exact ⟨rfl, rfl⟩
    | cons token more => simp [hmore token rfl]
  have htake : assembly.unplaced.takeWhile (·.isTrivia) = trivia := by
    rw [hunplaced, List.takeWhile_append_of_pos htrivia, hrest.1, List.append_nil]
  have hdrop : assembly.unplaced.dropWhile (·.isTrivia) = more := by
    rw [hunplaced, List.dropWhile_append_of_pos htrivia, hrest.2]
  rw [addTrivia, htake, hdrop, ← addAll_with_unplaced, addAll, List.foldl_map]

theorem addTrivia_eq {trivia more : List Token} {token : Token}
    (hunplaced : assembly.unplaced = trivia ++ token :: more) (htrivia : ∀ t ∈ trivia, t.isTrivia)
    (htoken : token.isTrivia = false) :
    assembly.addTrivia =
      { assembly.addAll (trivia.map .leaf) with unplaced := token :: more } := by
  refine addTrivia_of_head? hunplaced htrivia ?_
  rintro t ⟨⟩
  exact htoken

end Assembly

/-! ## Walks -/

/-- The events add some trees to the assembly: those given, with trivia added. -/
def Adds (events : List Event) (trees : List Tree) : Prop :=
  ∀ (assembly : Assembly) (rest : List Token),
    significant assembly.unplaced = allLeaves trees ++ rest →
      ∃ added unplaced,
        events.foldl Assembly.follow assembly = { assembly.addAll added with unplaced } ∧
          Padded added trees ∧ assembly.unplaced = allLeaves added ++ unplaced

theorem Adds.nil : Adds [] [] :=
  fun assembly _ _ => ⟨[], assembly.unplaced, rfl, .nil, rfl⟩

theorem Adds.append {events later : List Event} {trees more : List Tree} (h : Adds events trees)
    (hlater : Adds later more) : Adds (events ++ later) (trees ++ more) := by
  intro assembly rest hunplaced
  rw [allLeaves_append, List.append_assoc] at hunplaced
  obtain ⟨added, middle, hfold, htrees, hadded⟩ := h assembly _ hunplaced
  -- The first trees use up their own tokens, so the later ones find theirs in front.
  have hmiddle : significant middle = allLeaves more ++ rest := by
    have hleaves := allLeaves_allWithoutTrivia added
    rw [htrees.allWithoutTrivia_eq] at hleaves
    rw [hadded, significant_append, ← hleaves] at hunplaced
    exact List.append_cancel_left hunplaced
  obtain ⟨others, unplaced, hfoldLater, hothers, hrest⟩ :=
    hlater { assembly.addAll added with unplaced := middle } rest hmiddle
  refine ⟨added ++ others, unplaced, ?_, ?_, ?_⟩
  · rw [List.foldl_append, hfold, hfoldLater, Assembly.addAll_with_unplaced,
      Assembly.addAll_append]
  · exact htrees.append hothers
  · rw [hadded, allLeaves_append, List.append_assoc, ← hrest]

theorem adds_leaf {token : Token} (h : token.isTrivia = false) :
    Adds (leaf token).events [leaf token] := by
  intro assembly rest hunplaced
  obtain ⟨trivia, more, htokens, htrivia, -, -⟩ :=
    Assembly.exists_trivia_of_significant (by simpa using hunplaced)
  refine ⟨trivia.map .leaf ++ [leaf token], more, ?_, ?_, ?_⟩
  · simp only [Tree.events, h, Bool.false_eq_true, if_false, List.foldl_cons, List.foldl_nil,
      Assembly.follow]
    rw [Assembly.addTrivia_eq htokens htrivia h, Assembly.addToken, Assembly.addAll_append,
      Assembly.addAll_singleton]
    exact Assembly.add_with_unplaced (assembly.addAll _) _ _
  · exact .leaf htrivia h .nil
  · simp [htokens, allLeaves_map_leaf]

theorem adds_node {kind : NodeKind} {children : List Tree} (hkind : kind ≠ .document)
    (hleaves : allLeaves children ≠ []) (hproper : ∀ child ∈ children, child.Proper)
    (h : Adds (allEvents children) children) :
    Adds (node kind children).events [node kind children] := by
  intro assembly rest hunplaced
  obtain ⟨first, others, hfirst⟩ := List.exists_cons_of_ne_nil hleaves
  have hentry := entry_allLeaves kind hproper hfirst
  rw [allLeaves_cons, leaves_node, allLeaves_nil, List.append_nil, hfirst,
    List.cons_append] at hunplaced
  obtain ⟨trivia, more, htokens, htrivia, htoken, hmore⟩ :=
    Assembly.exists_trivia_of_significant hunplaced
  have hopen := Assembly.addTrivia_eq htokens htrivia htoken
  obtain ⟨added, unplaced, hfold, hadded, hplaced⟩ := h (assembly.addTrivia.openNode kind) rest (by
    rw [hopen, hfirst]
    simp [Assembly.openNode, significant_cons, htoken, hmore])
  have hplaced : first :: more = allLeaves added ++ unplaced := by
    simpa [Assembly.openNode, hopen] using hplaced
  have hhead : ∃ t ∈ (allLeaves added).head?, t.isTrivia = false := by
    have hsome : allLeaves added ≠ [] := by
      intro hnone
      have hchildren := allLeaves_allWithoutTrivia added
      rw [hadded.allWithoutTrivia_eq, hnone] at hchildren
      exact hleaves hchildren
    obtain ⟨t, behind, hbehind⟩ := List.exists_cons_of_ne_nil hsome
    rw [hbehind, List.cons_append] at hplaced
    refine ⟨t, by rw [hbehind]; rfl, ?_⟩
    exact (List.cons.inj hplaced).1 ▸ htoken
  refine ⟨trivia.map .leaf ++ [node kind added], unplaced, ?_, ?_, ?_⟩
  · simp only [Tree.events, hentry, List.foldl_append, List.foldl_cons, List.foldl_nil,
      Assembly.follow_enter hkind, Assembly.follow_exit hkind]
    rw [hfold, Assembly.closeNode_with_unplaced, Assembly.closeNode_addAll, hopen,
      Assembly.add_with_unplaced, Assembly.addAll_append, Assembly.addAll_singleton]
  · exact .node htrivia hhead hadded .nil
  · simp [htokens, hplaced, allLeaves_map_leaf]

theorem adds_of_forall {trees : List Tree} (h : ∀ tree ∈ trees, Adds tree.events [tree]) :
    Adds (allEvents trees) trees := by
  induction trees with
  | nil => exact .nil
  | cons tree trees ih =>
    rw [List.forall_mem_cons] at h
    exact h.1.append (ih h.2)

/-- The walk through a tree adds the tree. -/
theorem Tree.Proper.adds {tree : Tree} (h : tree.Proper) : Adds tree.events [tree] := by
  induction h with
  | leaf h => exact adds_leaf h
  | node hkind hleaves hchildren ih =>
    exact adds_node hkind hleaves hchildren (adds_of_forall ih)

/-- The walk through a document assembles the document: trivia stands in front of its
tokens, and what is left behind its last token at the end. -/
theorem assemble_padded {tokens : List Token} {children : List Tree}
    (hproper : ∀ child ∈ children, child.Proper)
    (htokens : significant tokens = allLeaves children) :
    ∃ added trailing, assemble tokens (allEvents [.node .document children]) =
        added ++ trailing.map .leaf ∧
      Padded added children ∧ (∀ t ∈ trailing, t.isTrivia) ∧
      tokens = allLeaves added ++ trailing := by
  have hadds : Adds (allEvents children) children :=
    adds_of_forall fun child member => (hproper child member).adds
  obtain ⟨added, unplaced, hfold, hadded, hplaced⟩ := hadds { unplaced := tokens } [] (by
    simpa using htokens)
  have hentry (assembly : Assembly) :
      (entry .document (allLeaves children)).foldl Assembly.follow assembly = assembly := by
    cases hhead : (significant (allLeaves children)).head? <;> simp [entry, hhead, Assembly.follow]
  refine ⟨added, unplaced, ?_, hadded, ?_, hplaced⟩
  · simp only [assemble, allEvents, Tree.events, List.append_nil, List.foldl_append, hentry, hfold,
      List.foldl_cons, List.foldl_nil, Assembly.follow]
    rw [Assembly.finish_addAll rfl]
    simp
  · -- What no event gave a place is trivia.
    have hleaves := allLeaves_allWithoutTrivia added
    rw [hadded.allWithoutTrivia_eq, ← htokens] at hleaves
    have hsignificant := congrArg significant hplaced
    rw [significant_append, ← hleaves] at hsignificant
    have hnone : significant unplaced = [] := by simpa using hsignificant
    simpa [significant] using hnone

/-- The document that is assembled is the one walked through, with the trivia of the
tokens. -/
theorem assemble_allEvents {tokens : List Token} {children : List Tree}
    (hproper : ∀ child ∈ children, child.Proper)
    (htokens : significant tokens = allLeaves children) :
    allWithoutTrivia (assemble tokens (allEvents [.node .document children])) = children ∧
      allLeaves (assemble tokens (allEvents [.node .document children])) = tokens := by
  obtain ⟨added, trailing, hassemble, hadded, htrailing, hplaced⟩ :=
    assemble_padded hproper htokens
  rw [hassemble]
  constructor
  · rw [allWithoutTrivia_append, hadded.allWithoutTrivia_eq, allWithoutTrivia_map_leaf htrailing,
      List.append_nil]
  · rw [allLeaves_append, allLeaves_map_leaf]
    exact hplaced.symm

end GuardedQuery
