import GuardedQuery.Proofs.Parse.Listening

/-! # What an observer is shown

An observer is shown the events of a run one by one, and none behind the one that it vetoes.
A log in front of it holds just these, and they determine the state that it ends in.

- `Observer.shows`: what is shown of a list of events, by recursion on it.
- `Observer.report_log`: a log in front of an observer.
- `Observer.veto_of_shows`: what something is shown behind was admitted.
- `Observer.veto_of_shows_both_optional`: by the first of two observers as well.
-/

namespace GuardedQuery

variable {σ τ : Type}

namespace Observer

/-- Of these events, what the observer is shown: all up to the first that it vetoes. -/
def shows (observer : Observer σ) : σ → List Event → List Event
  | _, [] => []
  | state, event :: events =>
    event ::
      match observer state event with
      | (_, some _) => []
      | (next, none) => shows observer next events

section one

variable (observer : Observer σ) (state : σ)

theorem shows_prefix (events : List Event) : observer.shows state events <+: events := by
  induction events generalizing state with
  | nil => exact List.prefix_rfl
  | cons event events ih =>
    rw [shows, List.prefix_cons_inj]
    rcases observer state event with ⟨next, _ | fault⟩
    · exact ih next
    · exact List.nil_prefix

/-- An observer ends in the state that what it is shown leads to. -/
theorem state_report (admitted events : List Event) :
    (Progress.report observer ⟨state, admitted⟩ events).1.state =
      observer.after state (observer.shows state events) := by
  induction events generalizing state admitted with
  | nil => rfl
  | cons event events ih =>
    rw [Progress.report, shows, after_cons]
    rcases observer state event with ⟨next, _ | fault⟩
    · exact ih next _
    · rfl

/-- What is shown is what is admitted, and the event behind that if it is vetoed. -/
theorem exists_vetoed (admitted events : List Event) :
    ∃ vetoed : Option Event, (observer.shows state events).reverse ++ admitted =
      vetoed.toList ++ (Progress.report observer ⟨state, admitted⟩ events).1.admitted := by
  induction events generalizing state admitted with
  | nil => exact ⟨none, rfl⟩
  | cons event events ih =>
    rw [Progress.report, shows, List.reverse_cons, List.append_assoc]
    rcases observer state event with ⟨next, _ | fault⟩
    · exact ih next (event :: admitted)
    · exact ⟨some event, rfl⟩

/-- A log in front of an observer holds what the observer is shown, and changes nothing. -/
theorem report_log (seen admitted events : List Event) :
    Progress.report (recorder.both observer) ⟨(seen, state), admitted⟩ events =
      match Progress.report observer ⟨state, admitted⟩ events with
      | (progress, veto) =>
        (⟨((observer.shows state events).reverse ++ seen, progress.state),
          progress.admitted⟩, veto) := by
  induction events generalizing state seen admitted with
  | nil => rfl
  | cons event events ih =>
    simp only [Progress.report, both, recorder, shows]
    rcases observer state event with ⟨next, _ | fault⟩
    · simpa using ih next (event :: seen) (event :: admitted)
    · rfl

variable {observer state}

/-- What something is shown behind was admitted. -/
theorem veto_of_shows {events front back : List Event} {event : Event} (hback : back ≠ [])
    (h : observer.shows state events = front ++ event :: back) :
    (observer (observer.after state front) event).2 = none := by
  induction front generalizing state events with
  | nil =>
    cases events with
    | nil => cases h
    | cons first events =>
      obtain ⟨rfl, hrest⟩ := List.cons.inj h
      rcases hseen : observer state first with ⟨next, _ | fault⟩
      · rw [after_nil, hseen]
      · rw [hseen] at hrest
        exact (hback hrest.symm).elim
  | cons first front ih =>
    cases events with
    | nil => cases h
    | cons other events =>
      obtain ⟨rfl, hrest⟩ := List.cons.inj h
      rcases hseen : observer state other with ⟨next, _ | fault⟩
      · rw [hseen] at hrest
        rw [after_cons, hseen]
        exact ih hrest
      · rw [hseen] at hrest
        simp at hrest

end one

/-! ## The first of two observers -/

section two

theorem both_optional_fst (first : Observer σ) (second : Observer τ) (state : σ) (other : τ)
    (event : Event) :
    (first.optional.both second (some state, other) event).1.1 =
      some (first state event).1 := by
  simp only [both, optional]
  rcases first state event with ⟨next, _ | fault⟩ <;> rfl

theorem after_both_optional (first : Observer σ) (second : Observer τ) (state : σ) (other : τ)
    (events : List Event) :
    ((first.optional.both second).after (some state, other) events).1 =
      some (first.after state events) := by
  induction events generalizing state other with
  | nil => rfl
  | cons event events ih =>
    have hfirst := both_optional_fst first second state other event
    rw [after_cons, after_cons]
    rcases hseen : first.optional.both second (some state, other) event with
      ⟨⟨next, following⟩, veto⟩
    rw [hseen] at hfirst
    obtain rfl : next = some (first state event).1 := hfirst
    exact ih _ _

variable {first : Observer σ} {second : Observer τ} {state : σ} {other : τ} {event : Event}

/-- The first vetoes nothing that both admit. -/
theorem veto_of_both_optional
    (h : (first.optional.both second (some state, other) event).2 = none) :
    (first state event).2 = none := by
  simp only [both, optional] at h
  rcases hseen : first state event with ⟨next, _ | fault⟩
  · rfl
  · rw [hseen] at h
    cases h

/-- What both are shown something behind was admitted by the first. -/
theorem veto_of_shows_both_optional {events front back : List Event} (hback : back ≠ [])
    (h : (first.optional.both second).shows (some state, other) events = front ++ event :: back) :
    (first (first.after state front) event).2 = none := by
  have hveto := veto_of_shows hback h
  have hafter := after_both_optional first second state other front
  rcases hstates : (first.optional.both second).after (some state, other) front with
    ⟨next, following⟩
  rw [hstates] at hveto hafter
  obtain rfl : next = some (first.after state front) := hafter
  exact veto_of_both_optional hveto

end two

end Observer

end GuardedQuery
