import GuardedQuery.Proofs.Descent.Definitions

/-! # The descent agrees with the run

Whatever the text of a source, the observer and the wording of faults, the descent comes to an
end, and to no defect.  What it comes to is what the run of the goals comes to.

- `Parser.returns_document`: the procedure for a document, from the first token to the last
  that it takes.
- `Parser.parse_agrees`: the whole parse of a text whose offsets fit 32 bits.
- `Parser.parse_eq_torn`: what becomes of texts that are too long.
-/

namespace GuardedQuery

/-- The trace of a text that starts with a definition. -/
theorem traceGoals_documentGoals {size : Nat} {token : Token} {rest : List Token}
    (hstart : (Goal.takeDefinition? token).isSome = true) :
    traceGoals size (token :: rest) documentGoals =
      (traceGoals size (token :: rest) [.definitions, .leave .document]).after
        [(Place.ofToken token).enter .document] := by
  obtain ⟨taken, htaken⟩ := Option.isSome_iff_exists.1 hstart
  have hfirst : Goal.firstDefinition.take? token rest.head? = some (taken.within .document) := by
    rw [Goal.take?, htaken, Option.map_some]
  have hmore : Goal.definitions.take? token rest.head? = some (taken.andThen [.definitions]) := by
    rw [Goal.take?, htaken, Option.map_some]
  rw [documentGoals, traceGoals_take hfirst, traceGoals_take hmore, Trace.after_after,
    Taken.andThen, List.append_assoc]
  rfl

namespace Parser

variable {σ : Type} {parser : Parser σ} {p q : State σ} {left rest : List Token}

theorem trace_eq (parser : Parser σ) :
    parser.trace =
      traceGoals parser.source.utf8ByteSize (significant parser.tokens) documentGoals := rfl

/-! ## The start of a document -/

theorem shows_initial : parser.Shows [] parser.initial := rfl

/-- An open document holds nothing yet. -/
theorem builds_initial (hfits : parser.Fits) :
    parser.Builds { unplaced := parser.tokens } (parser.initial.opened .document) where
  fits := hfits
  trivia := by simp [initial, State.opened]
  unplaced := rfl
  builder := rfl
  rules := rfl
  placed := ⟨[], rfl, rfl, rfl⟩

/-- Trivia in front of the first token stays aside until the document is open. -/
theorem returns_startDocument (hfits : parser.Fits) {later : Trace}
    (hleft : significant parser.tokens = left)
    (htrace : parser.trace = later.after [(parser.place left).enter .document]) :
    parser.Returns (parser.startNode .document) parser.initial fun _ q =>
      parser.At 256 [.document] left later q := by
  have hskipped : significant parser.initial.skipped.unread = left :=
    State.significant_skipped.trans hleft
  have hinitial : ∀ token ∈ parser.initial.unread, token ∈ parser.tokens := fun _ member => member
  obtain ⟨hrange, htext⟩ := gives_place hfits hinitial hleft
  have hshown : parser.Shows [] parser.initial.skipped := shows_initial
  refine hrange.returns_bind <| htext.returns_bind <| (hshown.notify htrace).bind ?_
  rintro _ _ ⟨observing, rfl, hseen⟩
  have hinside : Gives parser.drainInside (parser.initial.skipped.seen observing).refueled ()
      (parser.initial.skipped.seen observing).refueled := gives_get.bind (gives_pure ())
  refine ((gives_modify State.refueled).bind <| hinside.bind <|
    gives_modify (State.opened · .document)).returns ?_
  refine ⟨Nat.le_refl 256, rfl, hskipped, [_], hseen, ?_, htrace⟩
  -- The document is opened last, but nothing before that looks at the tree.
  exact ((builds_initial hfits).skipped.seen observing).refueled

/-! ## The end of a document -/

/-- Where a descent stands behind a document: some tokens are left, and so are as many of the
tokens of the text behind those that have a place. -/
structure Behind (parser : Parser σ) (rest : List Token) (q : State σ) : Prop where
  shown : ∃ done, parser.Shows done q ∧
    parser.trace = (traceGoals parser.source.utf8ByteSize rest []).after done ∧
    (rest = [] → q.builder.finish? = some (.node .document (assemble parser.tokens done)))
  placed : ∃ placed unplaced, parser.tokens = placed ++ unplaced ∧ significant unplaced = rest ∧
    q.lastTaken = lastSignificant? placed

section document

variable {done : List Event}

/-- Where no node is open below the root, closing the root leaves the document. -/
theorem closeNode?_drained (hbuilds : parser.Builds (parser.assembly done) p)
    (hopen : (parser.assembly done).openNodes = []) :
    p.drained.builder.closeNode? = some { finished := [.node .document
      ((parser.assembly done).root.reverse ++ p.held.map .leaf)] } := by
  have hbuilder : p.drained.builder = { openNodes := [⟨.document,
      (p.held.map .leaf).reverse ++ (parser.assembly done).root⟩] } := by
    rw [State.drained, hbuilds.builder, ← Builder.ofAssembly_addAll,
      Assembly.addAll_of_closed _ hopen, Builder.ofAssembly]
    simp [hopen]
  rw [hbuilder]
  simp [Builder.closeNode?, Builder.add]

/-- Where no token is left, the document holds what the events build. -/
theorem assemble_exit_document (hbuilds : parser.Builds (parser.assembly done) p)
    (hopen : (parser.assembly done).openNodes = []) (hnone : p.unread = []) :
    assemble parser.tokens (done ++ [.exit .document]) =
      (parser.assembly done).root.reverse ++ p.held.map .leaf := by
  have hdone : assemble parser.tokens (done ++ [.exit .document]) =
      (parser.assembly done).finish :=
    congrArg Assembly.finish (parser.assembly_concat done (.exit .document))
  have hunplaced := hbuilds.unplaced
  rw [hnone, List.append_nil] at hunplaced
  have hsame : parser.assembly done =
      { (parser.assembly done).addAll [] with unplaced := p.held } := by
    rw [← hunplaced]
    rfl
  rw [hdone, hsame, Assembly.finish_addAll hopen, List.append_nil]
  rfl

end document

/-- The trivia behind the last definition is the last that the document holds. -/
theorem returns_finishDocument {fuel : Nat} (h : parser.AtGoals fuel rest [.leave .document] p) :
    parser.Returns (do skipTrivia; parser.drainTrivia; parser.finishNode) p fun _ q =>
      parser.Behind rest q := by
  rw [AtGoals, traceGoals_leave] at h
  have hleft := h.left
  obtain ⟨-, hrules, -, done, hshows, hbuilds, htrace⟩ := h.skipped
  rw [Trace.after_after] at htrace
  have hopen : (parser.assembly done).openNodes = [] := by
    have hkinds := hbuilds.rules
    rw [hrules, hbuilds.builder, Builder.kinds_ofAssembly] at hkinds
    simpa using hkinds.symm
  have hclose := closeNode?_drained hbuilds hopen
  have hdrained : p.skipped.drained.rules = [.document] := hrules
  have hshown (builder : Builder) :
      parser.Shows done { p.skipped.drained with builder, rules := [] } := hshows
  refine (gives_modify State.skipped).returns_bind <| hbuilds.gives_drainTrivia.returns_bind <|
    gives_get.returns_bind ?_
  rw [hdrained, hclose]
  refine gives_set.returns_bind (((hshown _).notify htrace).mono ?_)
  rintro _ _ ⟨observing, rfl, hseen⟩
  refine ⟨⟨done ++ [_], hseen, htrace, ?_⟩, ?_⟩
  · rintro rfl
    rw [assemble_exit_document hbuilds hopen (State.skipped_unread_of_nil hleft)]
    rfl
  · obtain ⟨placed, htokens, -, hlast⟩ := hbuilds.placed
    refine ⟨placed, _, htokens, ?_, hlast⟩
    have htrivia : significant p.skipped.held = [] := by
      simpa [significant] using hbuilds.trivia
    rw [hbuilds.unplaced, significant_append, htrivia, List.nil_append]
    exact State.significant_skipped.trans hleft

/-! ## Documents -/

theorem returns_document (hfits : parser.Fits) :
    parser.Returns parser.document parser.initial fun _ q =>
      ∃ rest, rest.length < (significant parser.tokens).length ∧ parser.Behind rest q := by
  by_cases hstart : ∃ token more, significant parser.tokens = token :: more ∧
      (Goal.takeDefinition? token).isSome
  · obtain ⟨token, more, htokens, hstart⟩ := hstart
    have htrace : parser.trace = (traceGoals parser.source.utf8ByteSize (token :: more)
        [.definitions, .leave .document]).after
          [(parser.place (token :: more)).enter .document] := by
      rw [trace_eq, htokens, traceGoals_documentGoals hstart]
      rfl
    refine (returns_startDocument hfits htokens htrace).bind fun _ q hq => ?_
    refine ifAtDefinition hq ?_ ?_
    · intro r _ _ _ _ hr
      refine (takes_definitions hstart [.leave .document] r (hr.mono (by decide))).bind ?_
      rintro _ s ⟨rest, hrest, hs⟩
      refine (returns_finishDocument hs).mono ?_
      intro _ t ht
      exact ⟨rest, htokens ▸ hrest, ht⟩
    · intro r hother _
      rw [hother token rfl] at hstart
      cases hstart
  · have hnone : ∀ token ∈ (significant parser.tokens).head?,
        Goal.takeDefinition? token = none := by
      intro token member
      obtain ⟨more, htokens⟩ := List.head?_eq_some_iff.1 member
      rw [← Option.not_isSome_iff_eq_none]
      exact fun hsome => hstart ⟨token, more, htokens, hsome⟩
    have hfirst : ∀ token ∈ (significant parser.tokens).head?, ∀ next,
        Goal.firstDefinition.take? token next = none := by
      intro token member next
      rw [Goal.take?, hnone token member, Option.map_none]
    have htrace : parser.trace = (parser.rejection (significant parser.tokens)
        "expected a definition").after
          [(parser.place (significant parser.tokens)).enter .document] := by
      rw [trace_eq, documentGoals, traceGoals_reject rfl hfirst]
      rfl
    refine (returns_startDocument hfits rfl htrace).bind fun _ q hq => ?_
    refine ifAtDefinition hq ?_ ?_
    · intro r token rest hleft hsome _
      exact (hstart ⟨token, rest, hleft, hsome⟩).elim
    · intro r _ hr
      exact hr.unexpected

/-! ## Parses -/

/-- Some token was taken, so there is one that tokens may trail behind. -/
theorem Behind.trailing (h : parser.Behind rest q)
    (hrest : rest.length < (significant parser.tokens).length) :
    (rest = [] → trailingIndex? parser.tokens q.lastTaken = none) ∧
      ∀ hsome : rest ≠ [], ∃ index, trailingIndex? parser.tokens q.lastTaken = some index ∧
        parser.tokens[index]? = some (rest.getLast hsome) := by
  obtain ⟨placed, unplaced, htokens, hunplaced, hlast⟩ := h.placed
  have htaken : significant placed ≠ [] := by
    intro hnil
    rw [htokens, significant_append, hnil, hunplaced] at hrest
    exact Nat.lt_irrefl _ hrest
  obtain ⟨taken, htaken, -, -⟩ := lastSignificant?_append [] htaken
  rw [List.nil_append] at htaken
  have hbefore := lt_of_lastSignificant? htaken
  rw [hlast, htaken, htokens]
  constructor
  · rintro rfl
    have htrivia : ∀ token ∈ unplaced, token.isTrivia := by simpa [significant] using hunplaced
    simp [trailingIndex?, lastSignificant?_append_trivia htrivia, htaken]
  · intro hsome
    subst hunplaced
    obtain ⟨index, hindex, hle, hget⟩ := lastSignificant?_append placed hsome
    refine ⟨index, ?_, hget⟩
    rw [trailingIndex?, Option.bind_some, hindex, Option.filter_some, if_pos]
    simpa using Nat.lt_of_lt_of_le hbefore hle

/-- What the whole descent comes to. -/
theorem returns_parse (hfits : parser.Fits) :
    parser.Returns parser.parse parser.initial fun value q =>
      parser.report.state = q.observing ∧
        ∃ document, parser.report.result = .ok (document, value.2) ∧ value.1 = document.tree := by
  refine (returns_document hfits).bind ?_
  rintro _ q ⟨rest, hrest, hbehind⟩
  obtain ⟨hnone, htrailing⟩ := hbehind.trailing hrest
  obtain ⟨done, hshows, htrace, hfinish⟩ := hbehind.shown
  refine gives_get.returns_bind ?_
  cases rest with
  | nil =>
    have hevents : parser.trace.events = done := by simp [htrace]
    have hreport := parser.report_eq
    rw [hevents, hshows] at hreport
    rw [hnone rfl, hfinish rfl]
    refine (gives_pure _).returns ⟨by rw [hreport], ⟨assemble parser.tokens done⟩, ?_, rfl⟩
    rw [hreport, Trace.result, htrace]
    simp [tokens]
  | cons token more =>
    obtain ⟨index, hindex, hget⟩ := htrailing (List.cons_ne_nil _ _)
    rw [hindex]
    dsimp only
    rw [hget]
    have hmember := List.mem_of_getElem? hget
    refine (gives_slice hfits hmember).returns_bind ?_
    rw [Token.token_span hfits hmember]
    refine returns_throw (hshows.faults (by simp [htrace]) ?_)
    rw [Trace.result, htrace, traceGoals_cons_nil]
    rfl

/-- In a text that is no longer than a source can be, the descent comes to an end and to no
defect.  It leaves the observer in the state that the parse of the text leaves it in, and gives
the tree of the document with the number of its significant tokens, or the fault of the
parse. -/
theorem parse_agrees (parser : Parser σ) (hsize : parser.source.utf8ByteSize ≤ Source.maxSize) :
    ∃ last, parser.parse parser.initial =
        some (.ok (parser.report.result.map fun (document, count) => (document.tree, count),
          last)) ∧
      last.observing = parser.report.state := by
  rcases returns_parse hsize with ⟨value, q, hgives, hstate, document, hresult, htree⟩ |
    ⟨fault, q, hfails, hstate, hresult⟩
  · refine ⟨q, ?_, hstate.symm⟩
    have hvalue : value = (document.tree, value.2) := Prod.ext htree rfl
    rw [hresult]
    exact hgives.trans (by rw [hvalue]; rfl)
  · refine ⟨q, ?_, hstate.symm⟩
    rw [hresult]
    exact hfails

/-- A type condition without a name, and two braces that are not closed. -/
theorem parse_agrees_of_unclosed :
    let parser : Parser (List Event) := ⟨"\x7b a \x7b b ... on", .located .empty, .recorder, []⟩
    parser.source.utf8ByteSize ≤ Source.maxSize ∧ parser.report.result.isOk = false ∧
      ∃ last, parser.parse parser.initial =
        some (.ok (parser.report.result.map fun (document, count) => (document.tree, count),
          last)) ∧
        last.observing = parser.report.state := by
  intro parser
  have hsize : parser.source.utf8ByteSize ≤ Source.maxSize := by decide
  exact ⟨hsize, by decide +kernel, parser.parse_agrees hsize⟩

/-! ## Texts that are too long -/

theorem run_bind_fail {α β : Type} {x : Parsing σ α} {f : α → Parsing σ β} {defect : Defect}
    (h : x p = some (.error defect)) : (x >>= f) p = some (.error defect) := by
  simp only [Bind.bind, ExceptT.bind, ExceptT.mk, StateT.bind, h, Option.bind]
  rfl

/-- Where the text of the first token cannot be cut out, the parse ends in that defect. -/
theorem parse_eq_torn {token : Token} (hleft : significant parser.tokens = token :: rest)
    (hnone : Text.slice? parser.source token.span.range = none) :
    parser.parse parser.initial = some (.error .torn) := by
  have hinitial : significant parser.initial.unread = token :: rest := hleft
  obtain ⟨more, hunread, -, -⟩ := State.skipped_unread_of_cons hinitial
  have hrange : Gives parser.currentRange parser.initial token.span.range
      parser.initial.skipped := by
    refine (gives_modify State.skipped).bind <| gives_get.bind ?_
    rw [hunread]
    exact gives_pure _
  have htext : parser.currentText parser.initial.skipped = some (.error .torn) := by
    refine (gives_modify State.skipped).run_bind.trans <| gives_get.run_bind.trans ?_
    rw [State.skipped_skipped, hunread]
    dsimp only
    rw [slice, hnone]
    rfl
  have hstart : parser.startNode .document parser.initial = some (.error .torn) :=
    hrange.run_bind.trans (run_bind_fail htext)
  exact run_bind_fail (run_bind_fail hstart)

/-- One byte too many, and the end of the only token lies inside a character. -/
theorem parse_torn :
    let parser : Parser (List Event) :=
      ⟨String.ofList ('"' :: longWord 4294967293), .located .empty, .recorder, []⟩
    parser.source.utf8ByteSize = 4294967296 ∧
      parser.parse parser.initial = some (.error .torn) := by
  intro parser
  obtain ⟨hsize, hspans, hnone⟩ := openString_torn (n := 4294967293) rfl
  rw [lexSpans_eq, List.map_eq_singleton_iff] at hspans
  obtain ⟨token, hlex, hspan⟩ := hspans
  have hkind : token.kind = .garbage := congrArg (·.kind) hspan
  have hleft : significant parser.tokens = [token] := by
    rw [tokens, hlex, significant_cons, if_neg (by simp [Token.isTrivia, hkind, TokenKind.isTrivia])]
    rfl
  refine ⟨hsize, parse_eq_torn hleft ?_⟩
  rw [hspan]
  exact hnone

end Parser

end GuardedQuery
