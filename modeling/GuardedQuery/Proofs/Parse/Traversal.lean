import GuardedQuery.Proofs.Executable.Nodes
import GuardedQuery.Proofs.Executable.Walking
import GuardedQuery.Proofs.Parse.Lossless

/-! # A walk misses nothing

A visitor that walks on from every callback is called for the nodes of the document in
pre-order, and the first call that fails ends the walk.

- `Document.visits_of_parse`: the visits of a document, node by node.
- `Document.walk_of_parse`: the calls, their nodes and where a walk ends.
-/

namespace GuardedQuery

open Grammar GuardedQuery.Tree

namespace Document

variable {limits : Limits} {source : Source} {document : Document}

theorem range?_of_parse (h : parse limits source = .ok document) :
    document.tree.range? = some document.executable.range := by
  obtain ⟨children, hderives, htokens, -⟩ := parse_trusted_eq_ok_iff.1 (parse_trusted_of_parse h)
  have hleaves : document.tree.leaves ≠ [] := by
    rw [leaves_of_parse h]
    intro hnil
    rw [hnil] at htokens
    exact hderives.allLeaves_ne_nil (production_nullable _ _) htokens.symm
  have hrange : document.tree.range?.isSome := by
    rw [range?_eq, List.head?_eq_some_head hleaves, List.getLast?_eq_some_getLast hleaves]
    rfl
  obtain ⟨range, hrange⟩ := Option.isSome_iff_exists.1 hrange
  rw [executable, hrange]
  rfl

/-- The visits of a document are its own and then what its nodes show, each to its
callbacks and with its range. -/
theorem visits_of_parse (h : parse limits source = .ok document) :
    document.executable.visits =
        .document document.executable :: (allWalkedNodes document.children).flatMap Tree.shown ∧
      ∀ node ∈ allWalkedNodes document.children,
        node.shown.map (fun visit => (visit.callback, some visit.range)) =
          node.callbacks.map (·, node.range?) := by
  obtain ⟨children, hderives, htokens, rfl⟩ := parse_trusted_eq_ok_iff.1 (parse_trusted_of_parse h)
  have hinner := production_isInner .document false
  have hdefinitions := definitions_of_derives hderives htokens
  obtain ⟨added, trailing, hassemble, hadded, htrailing, -⟩ :=
    assemble_padded (hderives.proper hinner) htokens
  have hnodes : allWalkedNodes (added ++ trailing.map leaf) = allWalkedNodes added := by
    rw [allWalkedNodes_append, allWalkedNodes_map_leaf, List.append_nil]
  rw [Executable.visits_eq, hdefinitions]
  simp only [hassemble, hnodes]
  have hdisplays := hderives.displays_of_padded hinner hadded
  refine ⟨?_, hdisplays.entries_eq⟩
  rw [← hdisplays.visits_eq, hderives.items_document, List.flatMap_map]
  rfl

/-- A walk misses nothing.  A visitor that walks on from every callback is called for the
nodes of the document in pre-order, those inside variable definitions left out, with what
each node says, as often as the kind of the node asks for.  If it writes its calls down, the
log is all of them, or up to the first call that fails, and then its fault is the result. -/
theorem walk_of_parse (h : parse limits source = .ok document) :
    let visits := document.executable.visits
    visits.map (fun visit => (visit.callback, some visit.range)) =
        document.tree.walkedNodes.flatMap (fun node => node.callbacks.map (·, node.range?)) ∧
      visits = .document document.executable ::
        (allWalkedNodes document.children).flatMap Tree.shown ∧
      (∀ {σ : Type} (visit : σ → Visit → σ × Option Fault) (state : σ),
        traverse visit state visits =
          outcome ((document.executable.walk (call visit)).run state)) ∧
      ∀ failing : Nat → Option Fault,
        ((∀ n, 0 < n → n ≤ visits.length → failing n = none) →
          outcome ((document.executable.walk (call (logging failing))).run []) = (visits, none)) ∧
        ∀ n fault, 0 < n → n ≤ visits.length → (∀ k, 0 < k → k < n → failing k = none) →
          failing n = some fault →
          outcome ((document.executable.walk (call (logging failing))).run []) =
            (visits.take n, some fault) := by
  intro visits
  obtain ⟨hvisits, hentries⟩ := visits_of_parse h
  refine ⟨?nodes, hvisits, fun visit state => (document.executable.outcome_walk visit state).symm,
    fun failing => ⟨fun hnever => ?log, fun n fault hpos hle hbefore hfault => ?abort⟩⟩
  case nodes =>
    rw [show visits = _ from hvisits, List.map_cons, List.map_flatMap, tree, walkedNodes,
      if_neg (by decide), List.flatMap_cons, ← tree, range?_of_parse h]
    exact congrArg (_ :: ·) (List.flatMap_congr hentries)
  case log =>
    rw [Executable.outcome_walk, traverse_logging visits hnever]
  case abort =>
    rw [Executable.outcome_walk, traverse_logging_of_fault hpos hle hbefore hfault]

/-- A variable in a list in the directive of a spread; the visitor fails at the list. -/
theorem walk_of_variable_in_spread :
    let source : Source := ⟨[⟨none, "\x7b...a@b(c:[$d])\x7d", 0⟩], 16⟩
    let fault : Fault := { cause := .raised .syntaxError "enough" }
    let failing : Nat → Option Fault := fun n => if n = 5 then some fault else none
    ∃ document, parse {} source = .ok document ∧
      document.executable.visits.map Visit.callback =
        [.document, .operation, .selectionSet, .spread, .value, .value, .variable] ∧
      outcome ((document.executable.walk (call (logging failing))).run []) =
        (document.executable.visits.take 5, some fault) := by
  intro source fault failing
  have hcallbacks : (parse {} source).toOption.map
      (fun document => document.executable.visits.map Visit.callback) =
        some [.document, .operation, .selectionSet, .spread, .value, .value, .variable] := by
    decide +kernel
  rcases hparse : parse {} source with _ | document
  · rw [hparse] at hcallbacks
    cases hcallbacks
  · rw [hparse] at hcallbacks
    have hcallbacks : document.executable.visits.map Visit.callback = _ :=
      Option.some.inj hcallbacks
    obtain ⟨-, -, -, hlog⟩ := walk_of_parse hparse
    refine ⟨document, rfl, hcallbacks, (hlog failing).2 5 fault (by decide) ?_ ?_ rfl⟩
    · rw [← List.length_map Visit.callback, hcallbacks]
      decide
    · intro k _ hk
      exact if_neg (Nat.ne_of_lt hk)

end Document

end GuardedQuery
