import GuardedQuery.Proofs.Parse.Exactness
import GuardedQuery.Proofs.Tree.Nesting

/-! # The events of a parse are the walk through its tree

- `Document.guarded_eq_of_parseRecorded`: what a successful parse under limits went through.
- `Document.recorded_events_eq_walk`: its events and its count of tokens, read off the tree.
-/

namespace GuardedQuery

open Grammar GuardedQuery.Tree

namespace Document

variable {limits : Limits} {source : Source} {events : List Event} {document : Document}

/-- A parse that succeeds admits all events of the trace, and the trace is complete. -/
theorem guarded_eq_of_parseRecorded (h : parseRecorded limits source = (events, .ok document)) :
    ∃ progress, guarded limits source = (progress, none) ∧
      events = (textTrace source.text).events ∧ parse .trusted source = .ok document := by
  rw [parseRecorded_eq] at h
  cases hchars : limits.charCeiling?.filter (·.toNat < source.text.length) with
  | some ceiling =>
    rw [hchars] at h
    cases h
  | none =>
    rw [hchars] at h
    rcases hguarded : guarded limits source with ⟨progress, _ | fault⟩
    · rw [hguarded, Prod.mk.injEq] at h
      obtain ⟨rfl, hresult⟩ := h
      refine ⟨progress, rfl, ?_, by rw [parse_trusted, hresult]⟩
      rw [Progress.events, Progress.admitted_of_report hguarded, List.append_nil,
        List.reverse_reverse]
    · rw [hguarded] at h
      cases h

/-- The events of a successful parse are the walk through its tree, and the tokens it
counts are the events that take one and the significant leaves of the tree. -/
theorem recorded_events_eq_walk (h : parseRecorded limits source = (events, .ok document)) :
    events = document.tree.events ∧
    (parseText (.located source) (Observer.both (Guard.observe source).optional Observer.recorder)
      (Guard.ofLimits? limits, []) source.text).result =
        .ok (document, terminalCount events) ∧
    terminalCount events = (significant document.tree.leaves).length := by
  obtain ⟨progress, hguarded, rfl, hparse⟩ := guarded_eq_of_parseRecorded h
  obtain ⟨children, hderives, htokens, rfl⟩ := parse_trusted_eq_ok_iff.1 hparse
  obtain ⟨htree, hleaves⟩ := assembled_tree hderives htokens
  have htrace : textTrace source.text = ⟨allEvents [.node .document children], .complete⟩ := by
    rw [textTrace, htokens, traceGoals_complete hderives]
  -- Trivia is in the tree, but not in the walk through it.
  have hwalk : allEvents [.node .document children] =
      (tree ⟨assemble (lex source.text) (allEvents [.node .document children])⟩).events := by
    rw [← allEvents_withoutTrivia, htree]
  have hcount : terminalCount (allEvents [.node .document children]) =
      (significant (lex source.text)).length := by
    rw [hwalk, terminalCount_events, hleaves]
  rw [htrace]
  refine ⟨hwalk, ?_, ?_⟩
  · rw [parseText_recorded, hguarded]
    simp only [htrace, Trace.result, hcount]
  · rw [hcount, hleaves]

theorem recorded_events_of_shorthand :
    let source : Source := ⟨[⟨none, "\x7ba\x7d", 0⟩], 3⟩
    ∃ events document, parseRecorded {} source = (events, .ok document) ∧
      events = document.tree.events ∧ terminalCount events = 3 := by
  intro source
  rcases hparse : parseRecorded {} source with ⟨events, fault | document⟩
  · have hok : (parseRecorded {} source).2.isOk = true := by decide +kernel
    rw [hparse] at hok
    cases hok
  · have hcount : terminalCount (parseRecorded {} source).1 = 3 := by decide +kernel
    rw [hparse] at hcount
    exact ⟨events, document, rfl, (recorded_events_eq_walk hparse).1, hcount⟩

end Document

end GuardedQuery
