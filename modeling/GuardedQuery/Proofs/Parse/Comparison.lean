import GuardedQuery.Proofs.Parse.Observation
import GuardedQuery.Proofs.Run.Lexemes

/-! # Two runs side by side

Observers that do alike with each event do alike with all events.  So two parses can be
compared event by event, whatever they are of.

- `Observer.Simulates`: one event before two observers.
- `Observer.Simulates.report`: all events before two observers.
- `Guard.simulates`: two guards, each with its own source.
-/

namespace GuardedQuery

/-- Two observers in related states stay in related states when they see related events,
and veto them with related faults. -/
structure Observer.Simulates {σ τ : Type} (States : σ → τ → Prop) (Events : Event → Event → Prop)
    (Faults : Fault → Fault → Prop) (first : Observer σ) (second : Observer τ) : Prop where
  state : ∀ {s t event other}, States s t → Events event other →
    States (first s event).1 (second t other).1
  veto : ∀ {s t event other}, States s t → Events event other →
    Option.Rel Faults (first s event).2 (second t other).2

namespace Observer.Simulates

variable {σ τ σ' τ' : Type} {States : σ → τ → Prop} {States' : σ' → τ' → Prop}
  {Events : Event → Event → Prop} {Faults : Fault → Fault → Prop}
  {first : Observer σ} {second : Observer τ} {third : Observer σ'} {fourth : Observer τ'}

/-- Related events before two observers. -/
theorem report (h : Simulates States Events Faults first second) {p : Progress σ}
    {q : Progress τ} (hstate : States p.state q.state)
    (hadmitted : List.Forall₂ Events p.admitted q.admitted) {events others : List Event}
    (hevents : List.Forall₂ Events events others) :
    States (p.report first events).1.state (q.report second others).1.state ∧
      List.Forall₂ Events (p.report first events).1.admitted (q.report second others).1.admitted ∧
      Option.Rel Faults (p.report first events).2 (q.report second others).2 := by
  induction hevents generalizing p q with
  | nil => exact ⟨hstate, hadmitted, .none⟩
  | @cons event other events others hevent hevents ih =>
    have hnext := h.state hstate hevent
    have hveto := h.veto hstate hevent
    simp only [Progress.report]
    rcases hfirst : first p.state event with ⟨s, veto⟩
    rcases hsecond : second q.state other with ⟨t, veto'⟩
    rw [hfirst, hsecond] at hnext hveto
    cases hveto with
    | none => exact ih hnext (.cons hevent hadmitted)
    | some hfault => exact ⟨hnext, hadmitted, .some hfault⟩

theorem optional (h : Simulates States Events Faults first second) :
    Simulates (Option.Rel States) Events Faults first.optional second.optional where
  state := by
    rintro _ _ event other (hstate | _) hevent
    · exact .some (h.state hstate hevent)
    · exact .none
  veto := by
    rintro _ _ event other (hstate | _) hevent
    · exact h.veto hstate hevent
    · exact .none

theorem both (h : Simulates States Events Faults first second)
    (h' : Simulates States' Events Faults third fourth) :
    Simulates (fun p q => States p.1 q.1 ∧ States' p.2 q.2) Events Faults (first.both third)
      (second.both fourth) where
  state := by
    rintro ⟨s, s'⟩ ⟨t, t'⟩ event other ⟨hstate, hstate'⟩ hevent
    have hnext := h.state hstate hevent
    have hveto := h.veto hstate hevent
    simp only [Observer.both]
    rcases hfirst : first s event with ⟨u, veto⟩
    rcases hsecond : second t other with ⟨v, veto'⟩
    rw [hfirst, hsecond] at hnext hveto
    cases hveto with
    | none => exact ⟨hnext, h'.state hstate' hevent⟩
    | some => exact ⟨hnext, hstate'⟩
  veto := by
    rintro ⟨s, s'⟩ ⟨t, t'⟩ event other ⟨hstate, hstate'⟩ hevent
    have hveto := h.veto hstate hevent
    simp only [Observer.both]
    rcases hfirst : first s event with ⟨u, veto⟩
    rcases hsecond : second t other with ⟨v, veto'⟩
    rw [hfirst, hsecond] at hveto
    cases hveto with
    | none => exact h'.veto hstate' hevent
    | some hfault => exact .some hfault

/-- An observer does alike with the same events. -/
theorem same (observer : Observer σ) (hrefl : ∀ fault, Faults fault fault) :
    Simulates Eq Eq Faults observer observer where
  state := by
    rintro s _ event _ rfl rfl
    rfl
  veto := by
    rintro s _ event _ rfl rfl
    cases (observer s event).2 with
    | none => exact .none
    | some fault => exact .some (hrefl fault)

end Observer.Simulates

/-- Guards with the same counts decide alike, whatever sources they name places of. -/
theorem Guard.simulates {Ranges : ByteRange → ByteRange → Prop} {Faults : Fault → Fault → Prop}
    {a b : Source}
    (h : ∀ cause {range other} text, Ranges range other →
      Faults (faultAt a cause range text) (faultAt b cause other text)) :
    Observer.Simulates Eq (Event.Alike Ranges) Faults (observe a) (observe b) where
  state := by
    rintro guard _ event other rfl hevent
    cases hevent <;> rfl
  veto := by
    rintro guard _ event other rfl hevent
    cases hevent with
    | exit | anomaly _ => exact .none
    | enter hrange =>
      simp only [observe]
      cases passed? guard.maxDepth (guard.depth + 1) with
      | none => exact .none
      | some ceiling => exact .some (h _ _ hrange)
    | terminal hrange =>
      simp only [observe]
      cases passed? guard.maxTokens (guard.tokens + 1) with
      | none => exact .none
      | some ceiling => exact .some (h _ _ hrange)

end GuardedQuery
