import GuardedQuery.Proofs.Parse.Observation
import Mathlib.Data.List.Induction

/-! # Listening to a parse

Several listeners follow one parse, in order.  The first veto cuts it off cleanly: all
listeners have seen the same events, the ones behind the listener that vetoes one event
less, and the fault of the veto is the result.

- `Listener`: a state of an observer, with the event that it vetoes from there.
- `PolicyCall`: what a parse asks of its fault policy, at most once.
- `report_list_of_admits`, `report_list_of_veto`: a run of events before listeners.
- `parseText_listeners`: a parse before listeners against the parse that nobody vetoes.
-/

namespace GuardedQuery

variable {σ : Type}

/-! ## Listeners -/

def Observer.after (observer : Observer σ) (state : σ) (events : List Event) : σ :=
  events.foldl (fun state event => (observer state event).1) state

namespace Observer

@[simp] theorem after_nil (observer : Observer σ) (state : σ) :
    observer.after state [] = state := rfl

@[simp] theorem after_cons (observer : Observer σ) (state : σ) (event : Event)
    (events : List Event) :
    observer.after state (event :: events) =
      observer.after (observer state event).1 events := rfl

theorem after_append (observer : Observer σ) (state : σ) (events more : List Event) :
    observer.after state (events ++ more) =
      observer.after (observer.after state events) more :=
  List.foldl_append

end Observer

/-- A state of an observer that vetoes one event and no other, or none at all. -/
structure Listener (observer : Observer σ) where
  state : σ
  /-- Which event it vetoes, counted from one. -/
  turn : Option Nat
  turn_ne_zero : turn ≠ some 0
  vetoes_iff : ∀ events event,
    (observer (observer.after state events) event).2.isSome ↔ turn = some (events.length + 1)

namespace Listener

variable {observer : Observer σ}

def after (listener : Listener observer) (events : List Event) : σ :=
  observer.after listener.state events

/-- Before its turn a listener admits everything. -/
theorem admits (listener : Listener observer) {events : List Event} {event : Event}
    (h : listener.turn ≠ some (events.length + 1)) :
    (observer (listener.after events) event).2 = none := by
  have hveto := mt (listener.vetoes_iff events event).mp h
  simpa [after] using hveto

theorem exists_veto (listener : Listener observer) {events : List Event} (event : Event)
    (h : listener.turn = some (events.length + 1)) :
    ∃ fault, (observer (listener.after events) event).2 = some fault :=
  Option.isSome_iff_exists.mp ((listener.vetoes_iff events event).mpr h)

theorem after_concat (listener : Listener observer) (events : List Event) (event : Event) :
    listener.after (events ++ [event]) = (observer (listener.after events) event).1 := by
  rw [after, Observer.after_append]
  rfl

end Listener

namespace Tap

theorem seen_after (tap : Tap) (events : List Event) :
    Tap.observe.after tap events = { tap with seen := events.reverse ++ tap.seen } := by
  induction events generalizing tap with
  | nil => rfl
  | cons event events ih => simp [ih, Tap.observe]

def listener (vetoAt : Option Nat) (fault : Fault) (h : vetoAt ≠ some 0) :
    Listener Tap.observe where
  state := { vetoAt, fault }
  turn := vetoAt
  turn_ne_zero := h
  vetoes_iff events event := by simp [seen_after, Tap.observe]

end Tap

/-! ## What a parse asks of its policy -/

inductive PolicyCall where
  | report (anomaly : Anomaly)
  | trailing (last : Token)
deriving Repr, DecidableEq

def FaultPolicy.answer (policy : FaultPolicy) : PolicyCall → Fault
  | .report anomaly => policy.report anomaly
  | .trailing last => policy.trailing last

def Ending.call? : Ending → Option PolicyCall
  | .anomaly found => some (.report found)
  | .trailing last => some (.trailing last)
  | .complete | .vetoed _ => none

/-- Policies that answer the question of a run alike make no difference. -/
theorem parseText_congr_policy {policy other : FaultPolicy} (observer : Observer σ) (state : σ)
    (text : String)
    (h : ∀ call ∈ (parseText policy observer state text).ending.call?,
      policy.answer call = other.answer call) :
    parseText policy observer state text = parseText other observer state text := by
  simp only [parseText_eq, Trace.result] at h ⊢
  rcases hreport : Progress.report observer { state } (textTrace text).events with
    ⟨progress, _ | fault⟩
  · simp only [hreport] at h
    cases hending : (textTrace text).ending with
    | complete | vetoed _ => rfl
    | trailing last =>
      have hanswer := h (.trailing last) (by simp [hending, Ending.call?])
      simpa [FaultPolicy.answer] using hanswer
    | anomaly anomaly =>
      have hanswer := h (.report anomaly) (by simp [hending, Ending.call?])
      simpa [FaultPolicy.answer] using hanswer
  · rfl

/-! ## Listeners in order -/

section list

variable {observer : Observer σ}

/-- Observers that all admit an event have all seen it. -/
theorem Observer.list_of_admits {states : List σ} {event : Event}
    (h : ∀ state ∈ states, (observer state event).2 = none) :
    observer.list states event = (states.map fun state => (observer state event).1, none) := by
  induction states with
  | nil => rfl
  | cons state states ih =>
    obtain ⟨hstate, hstates⟩ := List.forall_mem_cons.mp h
    rcases hseen : observer state event with ⟨next, _ | fault⟩
    · simp [Observer.list, hseen, ih hstates]
    · rw [hseen] at hstate
      cases hstate

/-- The observers behind the first that vetoes an event do not see it. -/
theorem Observer.list_of_veto {before later : List σ} {first : σ} {event : Event} {fault : Fault}
    (hbefore : ∀ state ∈ before, (observer state event).2 = none)
    (hfirst : (observer first event).2 = some fault) :
    observer.list (before ++ first :: later) event =
      (before.map (fun state => (observer state event).1) ++ (observer first event).1 :: later,
        some fault) := by
  induction before with
  | nil =>
    rcases hseen : observer first event with ⟨next, _ | veto⟩
    · rw [hseen] at hfirst
      cases hfirst
    · rw [hseen] at hfirst
      cases hfirst
      simp [Observer.list, hseen]
  | cons state before ih =>
    obtain ⟨hstate, hrest⟩ := List.forall_mem_cons.mp hbefore
    rcases hseen : observer state event with ⟨next, _ | veto⟩
    · simp [Observer.list, hseen, ih hrest]
    · rw [hseen] at hstate
      cases hstate

/-- Listeners whose turn does not come see all events. -/
theorem report_list_of_admits {listeners : List (Listener observer)}
    {events : List Event}
    (h : ∀ listener ∈ listeners, ∀ turn ∈ listener.turn, events.length < turn) :
    Progress.report observer.list { state := listeners.map (·.state) } events =
      ({ state := listeners.map (·.after events), admitted := events.reverse }, none) := by
  -- From the back: a listener is described by all that it has seen so far.
  induction events using List.reverseRecOn with
  | nil => simp [Progress.report, Listener.after]
  | append_singleton events event ih =>
    have hshorter : ∀ listener ∈ listeners, ∀ turn ∈ listener.turn, events.length < turn := by
      intro listener hmem turn hturn
      have hlong := h listener hmem turn hturn
      simp only [List.length_append, List.length_singleton] at hlong
      omega
    have hadmits : ∀ state ∈ listeners.map (·.after events),
        (observer state event).2 = none := by
      intro state hstate
      obtain ⟨listener, hmem, rfl⟩ := List.mem_map.mp hstate
      refine listener.admits fun hturn => ?_
      have hlong := h listener hmem _ hturn
      simp at hlong
    simp only [Progress.report_append, ih hshorter, Progress.report,
      Observer.list_of_admits hadmits, List.map_map]
    simp [Function.comp_def, Listener.after_concat]

/-- At the first turn that comes the run ends: the listeners up to there have seen the
vetoed event, those behind it only the ones before. -/
theorem report_list_of_veto {before later : List (Listener observer)}
    {first : Listener observer} {events : List Event} {event : Event} {fault : Fault}
    (more : List Event) (hturn : first.turn = some (events.length + 1))
    (hbefore : ∀ listener ∈ before, ∀ turn ∈ listener.turn, events.length + 1 < turn)
    (hlater : ∀ listener ∈ later, ∀ turn ∈ listener.turn, events.length + 1 ≤ turn)
    (hfault : (observer (first.after events) event).2 = some fault) :
    Progress.report observer.list { state := (before ++ first :: later).map (·.state) }
        (events ++ event :: more) =
      ({ state := before.map (·.after (events ++ [event])) ++
          first.after (events ++ [event]) :: later.map (·.after events),
         admitted := events.reverse }, some fault) := by
  have hquiet : ∀ listener ∈ before ++ first :: later, ∀ turn ∈ listener.turn,
      events.length < turn := by
    intro listener hmem turn hlistener
    rcases List.mem_append.mp hmem with hmem | hmem
    · have := hbefore listener hmem turn hlistener
      omega
    · rcases List.mem_cons.mp hmem with rfl | hmem
      · rw [hturn, Option.mem_def, Option.some.injEq] at hlistener
        omega
      · exact hlater listener hmem turn hlistener
  have hadmits : ∀ state ∈ before.map (·.after events), (observer state event).2 = none := by
    intro state hstate
    obtain ⟨listener, hmem, rfl⟩ := List.mem_map.mp hstate
    refine listener.admits fun hsame => ?_
    have hlong := hbefore listener hmem _ hsame
    omega
  rw [Progress.report_append, report_list_of_admits hquiet]
  simp only [List.map_append, List.map_cons, Progress.report,
    Observer.list_of_veto hadmits hfault, List.map_map]
  simp [Function.comp_def, Listener.after_concat]

end list

/-- Either no turn comes within the bound, or one listener has the least turn and is the
first to have it. -/
theorem exists_first_turn {observer : Observer σ} (bound : Nat)
    (listeners : List (Listener observer)) :
    (∀ listener ∈ listeners, ∀ turn ∈ listener.turn, bound < turn) ∨
      ∃ before first later turn, listeners = before ++ first :: later ∧
        first.turn = some turn ∧ turn ≤ bound ∧
        (∀ listener ∈ before, ∀ other ∈ listener.turn, turn < other) ∧
        (∀ listener ∈ later, ∀ other ∈ listener.turn, turn ≤ other) := by
  induction listeners with
  | nil => exact .inl (by simp)
  | cons listener listeners ih =>
    by_cases hearly : ∃ turn, listener.turn = some turn ∧ turn ≤ bound
    · obtain ⟨turn, hturn, hbound⟩ := hearly
      rcases ih with hquiet | ⟨before, first, later, least, rfl, hfirst, hleast, hbefore, hlater⟩
      · refine .inr ⟨[], listener, listeners, turn, rfl, hturn, hbound, by simp, ?_⟩
        intro other hmem number hnumber
        have := hquiet other hmem number hnumber
        omega
      · -- Of two equal turns the one in front comes first.
        by_cases hle : turn ≤ least
        · refine .inr ⟨[], listener, before ++ first :: later, turn, rfl, hturn, hbound,
            by simp, ?_⟩
          simp only [List.forall_mem_append, List.forall_mem_cons, hfirst, Option.mem_def,
            Option.some.injEq]
          refine ⟨fun other hmem number hnumber => ?_, fun number hnumber => by omega,
            fun other hmem number hnumber => ?_⟩
          · have := hbefore other hmem number hnumber
            omega
          · have := hlater other hmem number hnumber
            omega
        · refine .inr ⟨listener :: before, first, later, least, rfl, hfirst, hleast, ?_, hlater⟩
          simp only [List.forall_mem_cons, hturn, Option.mem_def, Option.some.injEq]
          exact ⟨fun number hnumber => by omega, hbefore⟩
    · have hlate : ∀ turn ∈ listener.turn, bound < turn := by
        intro turn hturn
        exact Nat.lt_of_not_le fun hle => hearly ⟨turn, hturn, hle⟩
      rcases ih with hquiet | ⟨before, first, later, least, rfl, hfirst, hleast, hbefore, hlater⟩
      · exact .inl (List.forall_mem_cons.mpr ⟨hlate, hquiet⟩)
      · refine .inr ⟨listener :: before, first, later, least, rfl, hfirst, hleast, ?_, hlater⟩
        refine List.forall_mem_cons.mpr ⟨fun turn hturn => ?_, hbefore⟩
        have := hlate turn hturn
        omega

/-! ## The cut -/

/-- The parse that nobody vetoes is its trace. -/
theorem parseText_recorder (policy : FaultPolicy) (text : String) :
    parseText policy Observer.recorder [] text =
      { state := (textTrace text).events.reverse, ending := (textTrace text).ending,
        result := (textTrace text).result policy text } := by
  have hreport (seen : List Event) (progress : Progress (List Event)) (events : List Event) :
      Progress.report Observer.recorder progress events =
        ({ state := events.reverse ++ progress.state,
           admitted := events.reverse ++ progress.admitted }, none) := by
    induction events generalizing progress with
    | nil => rfl
    | cons event events ih => simp [Progress.report, Observer.recorder, ih]
  rw [parseText_eq, hreport []]
  simp

/-- A parse before listeners is the parse that nobody vetoes up to the first turn that
comes.  If none comes, all see everything and nothing changes.  Otherwise the listener
with the first turn, of those with the same turn the first in order, ends the parse with
its own fault, and the policy is not asked, whatever the vetoed event was. -/
theorem parseText_listeners (policy : FaultPolicy) (text : String) (observer : Observer σ)
    (listeners : List (Listener observer)) :
    let quiet := parseText policy Observer.recorder [] text
    let events := quiet.state.reverse
    let heard := parseText policy observer.list (listeners.map (·.state)) text
    ((∀ listener ∈ listeners, ∀ turn ∈ listener.turn, events.length < turn) ∧
      heard.state = listeners.map (·.after events) ∧
      heard.result = quiet.result ∧
      heard.ending = quiet.ending ∧ heard.ending.call? = quiet.ending.call?) ∨
    ∃ before first later turn,
      listeners = before ++ first :: later ∧
      first.turn = some turn ∧ turn ≤ events.length ∧
      (∀ listener ∈ before, ∀ other ∈ listener.turn, turn < other) ∧
      (∀ listener ∈ later, ∀ other ∈ listener.turn, turn ≤ other) ∧
      heard.state = before.map (·.after (events.take turn)) ++
        first.after (events.take turn) :: later.map (·.after (events.take (turn - 1))) ∧
      (∃ event fault, events[turn - 1]? = some event ∧
        (observer (first.after (events.take (turn - 1))) event).2 = some fault ∧
        heard.result = .error fault ∧ heard.ending = .vetoed fault) ∧
      heard.ending.call? = none := by
  intro quiet events heard
  have hquiet : quiet = _ := parseText_recorder policy text
  have hevents : events = (textTrace text).events := by simp [events, hquiet]
  have hheard : heard = _ := parseText_eq policy observer.list (listeners.map (·.state)) text
  rw [← hevents] at hheard
  rcases exists_first_turn events.length listeners with
    hnone | ⟨before, first, later, turn, hsplit, hturn, hbound, hbefore, hlater⟩
  · rw [report_list_of_admits hnone] at hheard
    refine .inl ⟨hnone, ?_⟩
    simp [hheard, hquiet]
  · refine .inr ⟨before, first, later, turn, hsplit, hturn, hbound, hbefore, hlater, ?_⟩
    obtain ⟨index, rfl⟩ : ∃ index, turn = index + 1 := by
      refine Nat.exists_eq_succ_of_ne_zero fun hzero => first.turn_ne_zero ?_
      rw [hturn, hzero]
    have hcut : events.take index ++ events[index] :: events.drop (index + 1) = events := by
      rw [List.getElem_cons_drop, List.take_append_drop]
    have hlength : (events.take index).length = index := by
      rw [List.length_take]
      omega
    have htake : events.take index ++ [events[index]] = events.take (index + 1) := by
      simp
    have hfirst : first.turn = some ((events.take index).length + 1) := by
      rw [hlength]
      exact hturn
    obtain ⟨fault, hfault⟩ := first.exists_veto events[index] hfirst
    rw [← hcut, hsplit, report_list_of_veto _ hfirst
      (by rw [hlength]; exact hbefore) (by rw [hlength]; exact hlater) hfault, htake] at hheard
    have hevent : events[index]? = some events[index] := by simp
    refine ⟨?_, ⟨events[index], fault, hevent, hfault, ?_⟩, ?_⟩
    all_goals simp [hheard, Ending.call?]

end GuardedQuery
