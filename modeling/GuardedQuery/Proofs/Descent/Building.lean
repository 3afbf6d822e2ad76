import GuardedQuery.Proofs.Descent.Grammar
import GuardedQuery.Proofs.Token.Spans
import GuardedQuery.Proofs.Tree.Assembly
import Mathlib.Data.List.TakeWhile

/-! # What a descent builds

The operations of the descent do to its state what the events of a run do to a tree under
construction.  The assembly has its root from the start, the builder has it as its outermost
node; apart from that they are the same at every event.

- `Gives`: a computation that ends in a value.
- `Parser.Builds`: the state of the descent holds what an assembly holds.
- `Builds.skipped`, `Builds.drained`, `Builds.opened`, `Builds.closed`, `Builds.took`: and goes on
  doing so.
-/

namespace GuardedQuery

/-! ## The last significant token -/

theorem lastSignificant?_concat (tokens : List Token) (token : Token) :
    lastSignificant? (tokens ++ [token]) =
      if token.isTrivia then lastSignificant? tokens else some tokens.length := by
  rw [lastSignificant?, List.reverse_append, List.reverse_singleton, List.singleton_append,
    List.findIdx?_cons]
  cases h : token.isTrivia with
  | true =>
    simp only [lastSignificant?, Bool.not_true, Bool.false_eq_true, if_false, if_true,
      Option.map_map]
    congr 1
    funext index
    simp only [Function.comp_apply, List.length_append, List.length_singleton]
    omega
  | false => simp

theorem lastSignificant?_append_trivia {tokens trivia : List Token}
    (h : ∀ token ∈ trivia, token.isTrivia) :
    lastSignificant? (tokens ++ trivia) = lastSignificant? tokens := by
  induction trivia generalizing tokens with
  | nil => rw [List.append_nil]
  | cons token trivia ih =>
    rw [List.forall_mem_cons] at h
    rw [List.append_cons, ih h.2, lastSignificant?_concat, if_pos h.1]

/-- Behind tokens that are not all trivia, the last significant one is theirs. -/
theorem lastSignificant?_append (tokens : List Token) {more : List Token}
    (h : significant more ≠ []) :
    ∃ index, lastSignificant? (tokens ++ more) = some index ∧ tokens.length ≤ index ∧
      (tokens ++ more)[index]? = some ((significant more).getLast h) := by
  induction more using List.reverseRecOn with
  | nil => exact (h rfl).elim
  | append_singleton more token ih =>
    rw [← List.append_assoc, lastSignificant?_concat]
    cases htoken : token.isTrivia with
    | true =>
      have hsame : significant (more ++ [token]) = significant more := by
        simp [significant_cons, htoken]
      simp only [hsame] at h ⊢
      obtain ⟨index, hindex, hle, hget⟩ := ih h
      have hlt : index < (tokens ++ more).length := (List.getElem?_eq_some_iff.1 hget).1
      exact ⟨index, hindex, hle, by rw [List.getElem?_append_left hlt, hget]⟩
    | false =>
      refine ⟨(tokens ++ more).length, rfl, by simp, ?_⟩
      simp [significant_cons, htoken]

theorem lt_of_lastSignificant? {tokens : List Token} {index : Nat}
    (h : lastSignificant? tokens = some index) : index < tokens.length := by
  obtain ⟨from_end, hfind, rfl⟩ := Option.map_eq_some_iff.1 h
  have hlt := (List.findIdx?_eq_some_iff_findIdx_eq.1 hfind).1
  rw [List.length_reverse] at hlt
  omega

/-! ## Trivia ahead -/

theorem dropWhile_isTrivia_of_nil {tokens : List Token} (h : significant tokens = []) :
    tokens.dropWhile (·.isTrivia) = [] := by
  rw [List.dropWhile_eq_nil_iff]
  simpa [significant] using h

theorem dropWhile_isTrivia_of_cons {tokens rest : List Token} {token : Token}
    (h : significant tokens = token :: rest) :
    ∃ more, tokens.dropWhile (·.isTrivia) = token :: more ∧ significant more = rest ∧
      token.isTrivia = false := by
  obtain ⟨trivia, more, rfl, htrivia, htoken, hmore⟩ := Assembly.exists_trivia_of_significant h
  refine ⟨more, ?_, hmore, htoken⟩
  rw [List.dropWhile_append_of_pos htrivia, List.dropWhile_cons_of_neg (by simp [htoken])]

/-! ## Builders and assemblies -/

namespace Builder

def ofAssembly (assembly : Assembly) : Builder :=
  { openNodes := assembly.openNodes ++ [⟨.document, assembly.root⟩] }

def addAll (builder : Builder) (trees : List Tree) : Builder :=
  trees.foldl add builder

variable {assembly : Assembly} {builder : Builder}

theorem ofAssembly_add (tree : Tree) :
    ofAssembly (assembly.add tree) = (ofAssembly assembly).add tree := by
  obtain ⟨root, openNodes, unplaced⟩ := assembly
  cases openNodes <;> rfl

theorem ofAssembly_addAll (trees : List Tree) :
    ofAssembly (assembly.addAll trees) = (ofAssembly assembly).addAll trees := by
  induction trees generalizing assembly with
  | nil => rfl
  | cons tree trees ih =>
    simp only [Assembly.addAll, addAll, List.foldl_cons] at ih ⊢
    rw [ih, ofAssembly_add]

theorem closeNode?_ofAssembly (h : assembly.openNodes ≠ []) :
    (ofAssembly assembly).closeNode? = some (ofAssembly assembly.closeNode) := by
  obtain ⟨root, openNodes, unplaced⟩ := assembly
  cases openNodes with
  | nil => exact (h rfl).elim
  | cons inner outer =>
    cases outer <;> rfl

def kinds (builder : Builder) : List NodeKind := builder.openNodes.map (·.kind)

@[simp] theorem kinds_add (tree : Tree) : (builder.add tree).kinds = builder.kinds := by
  obtain ⟨finished, openNodes⟩ := builder
  cases openNodes <;> rfl

@[simp] theorem kinds_addAll (trees : List Tree) :
    (builder.addAll trees).kinds = builder.kinds := by
  induction trees generalizing builder with
  | nil => rfl
  | cons tree trees ih =>
    have hrest : ((builder.add tree).addAll trees).kinds = (builder.add tree).kinds := ih
    exact hrest.trans (kinds_add tree)

theorem kinds_closeNode? {closed : Builder} (h : builder.closeNode? = some closed) :
    closed.kinds = builder.kinds.tail := by
  obtain ⟨finished, openNodes⟩ := builder
  cases openNodes with
  | nil => cases h
  | cons inner outer =>
    cases h
    rw [kinds_add]
    rfl

theorem kinds_ofAssembly :
    (ofAssembly assembly).kinds = assembly.openNodes.map (·.kind) ++ [.document] := by
  simp [kinds, ofAssembly]

end Builder

namespace Parser

/-! ## Computations that go through -/

section gives

variable {σ α β : Type} {p q r : State σ}

def Gives (x : Parsing σ α) (p : State σ) (v : α) (q : State σ) : Prop :=
  x p = some (.ok (.ok v, q))

theorem Gives.run_bind {x : Parsing σ α} {f : α → Parsing σ β} {v : α} (h : Gives x p v q) :
    (x >>= f) p = f v q := by
  have hx : x p = some (.ok (.ok v, q)) := h
  simp only [Bind.bind, ExceptT.bind, ExceptT.mk, StateT.bind, ExceptT.bindCont, hx, Option.bind]

theorem Gives.bind {x : Parsing σ α} {f : α → Parsing σ β} {v : α} {w : β} (h : Gives x p v q)
    (hnext : Gives (f v) q w r) : Gives (x >>= f) p w r :=
  h.run_bind.trans hnext

theorem gives_pure (v : α) : Gives (pure v) p v p := rfl

theorem gives_get : Gives get p p p := rfl

theorem gives_set : Gives (set q) p () q := rfl

theorem gives_modify (f : State σ → State σ) : Gives (modify f) p () (f p) := rfl

def State.burnt (p : State σ) : State σ := { p with fuel := p.fuel - 1 }

theorem gives_burn (h : 0 < p.fuel) : Gives burn p () p.burnt := by
  refine gives_get.bind ?_
  rw [if_neg (Nat.ne_of_gt h)]
  exact gives_set

def Fits (parser : Parser σ) : Prop := parser.source.utf8ByteSize ≤ Source.maxSize

variable {parser : Parser σ}

section fits

variable (hfits : parser.Fits)

include hfits

theorem gives_slice {token : Token} (h : token ∈ parser.tokens) :
    Gives (parser.slice token.span.range) p token.text p := by
  rw [slice, Token.slice?_span hfits h]
  exact gives_pure _

theorem gives_addLeaf {token : Token} (h : token ∈ parser.tokens) :
    Gives (parser.addLeaf token) p () { p with builder := p.builder.add (.leaf token) } := by
  refine (gives_slice hfits h).bind ?_
  rw [Token.token_span hfits h]
  exact gives_modify _

theorem gives_addLeaves {tokens : List Token} (h : ∀ token ∈ tokens, token ∈ parser.tokens) :
    Gives (forM tokens parser.addLeaf) p ()
      { p with builder := p.builder.addAll (tokens.map .leaf) } := by
  induction tokens generalizing p with
  | nil => exact gives_pure _
  | cons token tokens ih =>
    rw [List.forall_mem_cons] at h
    rw [List.forM_cons]
    exact (gives_addLeaf hfits h.1).bind (ih h.2)

end fits

end gives

/-! ## The steps of a descent on its state -/

variable {σ : Type}

namespace State

variable (p : State σ)

def seen (observing : σ) : State σ := { p with observing }

def refueled : State σ := { p with fuel := 256 }

def drained : State σ :=
  { p with held := [], builder := p.builder.addAll (p.held.map .leaf) }

def opened (rule : NodeKind) : State σ :=
  { p with builder := p.builder.openNode rule, rules := rule :: p.rules }

def took (token : Token) (unread : List Token) : State σ :=
  { p with
    builder := p.builder.add (.leaf token)
    lastTaken := some p.position
    position := p.position + 1
    unread }

def Clean : Prop := ∀ token ∈ p.unread.head?, token.isTrivia = false

variable {p}

theorem skipped_unread_of_nil (h : significant p.unread = []) : p.skipped.unread = [] :=
  dropWhile_isTrivia_of_nil h

theorem skipped_unread_of_cons {token : Token} {rest : List Token}
    (h : significant p.unread = token :: rest) :
    ∃ more, p.skipped.unread = token :: more ∧ significant more = rest ∧ token.isTrivia = false :=
  dropWhile_isTrivia_of_cons h

theorem clean_skipped : p.skipped.Clean := by
  intro token member
  cases h : significant p.unread with
  | nil =>
    rw [skipped_unread_of_nil h] at member
    cases member
  | cons first rest =>
    obtain ⟨more, hmore, -, hfirst⟩ := skipped_unread_of_cons h
    rw [hmore] at member
    cases member
    exact hfirst

theorem significant_skipped : significant p.skipped.unread = significant p.unread := by
  cases h : significant p.unread with
  | nil => rw [skipped_unread_of_nil h, significant_nil]
  | cons token rest =>
    obtain ⟨more, hmore, hrest, htoken⟩ := skipped_unread_of_cons h
    rw [hmore, significant_cons, if_neg (by simp [htoken]), hrest]

/-- There is nothing more to set aside. -/
theorem skipped_skipped : p.skipped.skipped = p.skipped := by
  have htake : p.skipped.unread.takeWhile (·.isTrivia) = [] ∧
      p.skipped.unread.dropWhile (·.isTrivia) = p.skipped.unread := by
    have hclean := p.clean_skipped
    cases h : p.skipped.unread with
    | nil => exact ⟨rfl, rfl⟩
    | cons token more =>
      rw [Clean, h] at hclean
      simp [hclean token rfl]
  obtain ⟨htake, hdrop⟩ := htake
  rw [skipped, htake, hdrop]
  simp

end State

structure Builds (parser : Parser σ) (assembly : Assembly) (p : State σ) : Prop where
  fits : parser.Fits
  trivia : ∀ token ∈ p.held, token.isTrivia
  unplaced : assembly.unplaced = p.held ++ p.unread
  builder : p.builder = .ofAssembly assembly
  rules : p.rules = p.builder.kinds
  placed : ∃ placed, parser.tokens = placed ++ assembly.unplaced ∧
    p.position = placed.length + p.held.length ∧ p.lastTaken = lastSignificant? placed

namespace Builds

variable {parser : Parser σ} {assembly : Assembly} {p : State σ}

theorem held_subset (h : parser.Builds assembly p) {token : Token} (member : token ∈ p.held) :
    token ∈ parser.tokens := by
  obtain ⟨placed, htokens, -, -⟩ := h.placed
  rw [htokens, h.unplaced]
  exact List.mem_append_right _ (List.mem_append_left _ member)

theorem unread_subset (h : parser.Builds assembly p) {token : Token} (member : token ∈ p.unread) :
    token ∈ parser.tokens := by
  obtain ⟨placed, htokens, -, -⟩ := h.placed
  rw [htokens, h.unplaced]
  exact List.mem_append_right _ (List.mem_append_right _ member)

theorem burnt (h : parser.Builds assembly p) : parser.Builds assembly p.burnt := by
  obtain ⟨hfits, htrivia, hunplaced, hbuilder, hrules, hplaced⟩ := h
  exact ⟨hfits, htrivia, hunplaced, hbuilder, hrules, hplaced⟩

theorem seen (h : parser.Builds assembly p) (observing : σ) :
    parser.Builds assembly (p.seen observing) := by
  obtain ⟨hfits, htrivia, hunplaced, hbuilder, hrules, hplaced⟩ := h
  exact ⟨hfits, htrivia, hunplaced, hbuilder, hrules, hplaced⟩

theorem refueled (h : parser.Builds assembly p) : parser.Builds assembly p.refueled := by
  obtain ⟨hfits, htrivia, hunplaced, hbuilder, hrules, hplaced⟩ := h
  exact ⟨hfits, htrivia, hunplaced, hbuilder, hrules, hplaced⟩

theorem skipped (h : parser.Builds assembly p) : parser.Builds assembly p.skipped := by
  obtain ⟨hfits, htrivia, hunplaced, hbuilder, hrules, placed, htokens, hposition, hlast⟩ := h
  refine ⟨hfits, ?_, ?_, hbuilder, hrules, placed, htokens, ?_, hlast⟩
  · intro token member
    rcases List.mem_append.1 member with member | member
    · exact htrivia token member
    · exact List.mem_takeWhile_imp member
  · rw [hunplaced, State.skipped, List.append_assoc, List.takeWhile_append_dropWhile]
  · simp only [State.skipped, List.length_append]
    omega

theorem gives_drainTrivia (h : parser.Builds assembly p) :
    Gives parser.drainTrivia p () p.drained :=
  gives_get.bind <| gives_set.bind <| gives_addLeaves h.fits fun _ => h.held_subset

/-- The document is always open. -/
theorem rules_ne_nil (h : parser.Builds assembly p) : p.rules ≠ [] := by
  rw [h.rules, h.builder, Builder.kinds_ofAssembly]
  exact List.append_ne_nil_of_right_ne_nil _ (List.cons_ne_nil _ _)

theorem gives_drainInside (h : parser.Builds assembly p) :
    Gives parser.drainInside p () p.drained := by
  refine gives_get.bind ?_
  rw [if_neg h.rules_ne_nil]
  exact h.gives_drainTrivia

theorem drained (h : parser.Builds assembly p) (hclean : p.Clean) :
    parser.Builds assembly.addTrivia p.drained := by
  -- All trivia ahead is set aside already, so the assembly places no more than that.
  have hadd := Assembly.addTrivia_of_head? h.unplaced h.trivia hclean
  obtain ⟨hfits, htrivia, hunplaced, hbuilder, hrules, placed, htokens, hposition, hlast⟩ := h
  rw [hadd]
  refine ⟨hfits, by simp [State.drained], rfl, ?_, ?_, placed ++ p.held, ?_, ?_, ?_⟩
  · rw [State.drained, hbuilder, ← Builder.ofAssembly_addAll]
    rfl
  · rw [State.drained, Builder.kinds_addAll]
    exact hrules
  · rw [htokens, hunplaced, List.append_assoc]
  · simp [State.drained, hposition]
  · rw [lastSignificant?_append_trivia htrivia]
    exact hlast

theorem opened (h : parser.Builds assembly p) (rule : NodeKind) :
    parser.Builds (assembly.openNode rule) (p.opened rule) := by
  obtain ⟨hfits, htrivia, hunplaced, hbuilder, hrules, hplaced⟩ := h
  refine ⟨hfits, htrivia, hunplaced, ?_, ?_, hplaced⟩
  · rw [State.opened, hbuilder]
    rfl
  · rw [State.opened, hrules]
    rfl

/-- A rule other than the document has an open node below the root. -/
theorem closed (h : parser.Builds assembly p) {rule : NodeKind} {outer : List NodeKind}
    (hrule : rule ≠ .document) (houter : p.rules = rule :: outer) :
    ∃ builder, p.builder.closeNode? = some builder ∧
      parser.Builds assembly.closeNode { p with builder, rules := outer } := by
  obtain ⟨hfits, htrivia, hunplaced, hbuilder, hrules, hplaced⟩ := h
  -- Without an open node below the root, the innermost rule would be the document.
  have hopen : assembly.openNodes ≠ [] := by
    intro hnil
    rw [houter, hbuilder, Builder.kinds_ofAssembly, hnil] at hrules
    cases hrules
    exact hrule rfl
  have hclose := Builder.closeNode?_ofAssembly hopen
  have hsame : assembly.closeNode.unplaced = assembly.unplaced := by
    rw [Assembly.closeNode]
    split
    · rfl
    · rw [Assembly.add]
      split <;> rfl
  refine ⟨.ofAssembly assembly.closeNode, hbuilder ▸ hclose, hfits, htrivia, hsame ▸ hunplaced, rfl, ?_,
    hsame ▸ hplaced⟩
  rw [Builder.kinds_closeNode? hclose, ← hbuilder, ← hrules, houter]
  rfl

theorem took (h : parser.Builds assembly p) (hheld : p.held = []) {token : Token}
    {unread : List Token} (htoken : token.isTrivia = false) (hunread : p.unread = token :: unread) :
    parser.Builds assembly.addToken (p.took token unread) := by
  obtain ⟨hfits, -, hunplaced, hbuilder, hrules, placed, htokens, hposition, hlast⟩ := h
  rw [hheld, List.nil_append, hunread] at hunplaced
  have hadd : assembly.addToken = { assembly.add (.leaf token) with unplaced := unread } := by
    rw [Assembly.addToken, hunplaced]
    exact Assembly.add_with_unplaced _ _ _
  rw [hadd]
  refine ⟨hfits, ?_, ?_, ?_, ?_, placed ++ [token], ?_, ?_, ?_⟩
  · simp [State.took, hheld]
  · simp [State.took, hheld]
  · rw [State.took, hbuilder, ← Builder.ofAssembly_add]
    rfl
  · rw [State.took, Builder.kinds_add]
    exact hrules
  · rw [htokens, hunplaced, List.append_assoc]
    rfl
  · simp [State.took, hposition, hheld]
  · rw [lastSignificant?_concat, if_neg (by simp [htoken])]
    simp [State.took, hposition, hheld]

end Builds

end Parser

end GuardedQuery
