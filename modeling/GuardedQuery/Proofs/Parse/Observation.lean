import GuardedQuery.Proofs.Run.Explanation
import GuardedQuery.Proofs.Source.Reading
import GuardedQuery.Proofs.Tree.Assembly

/-! # Parses and the traces behind them

What a parse reports and what it comes to are both read off the trace of its text: the
observers see the events of the trace up to the first veto, and without a veto the trace
decides.

- `textTrace`: the trace of a text.
- `Trace.result`: what a parse makes of a trace that nobody vetoes.
- `parseRecorded_eq`, `parse_eq`: parses under limits, from the trace and the guard.
-/

namespace GuardedQuery

def textTrace (text : String) : Trace :=
  traceGoals text.utf8ByteSize (significant (lex text)) documentGoals

def Trace.result (policy : FaultPolicy) (text : String) (trace : Trace) :
    Except Fault (Document × Nat) :=
  match trace.ending with
  | .complete => .ok (⟨assemble (lex text) trace.events⟩, (significant (lex text)).length)
  | .trailing last => .error (policy.trailing last)
  | .anomaly anomaly => .error (policy.report anomaly)
  | .vetoed fault => .error fault

/-! ## Reports -/

variable {σ τ : Type}

/-- Without a veto every event is admitted. -/
theorem Progress.admitted_of_report {observer : Observer σ} {progress next : Progress σ}
    {events : List Event} (h : progress.report observer events = (next, none)) :
    next.admitted = events.reverse ++ progress.admitted := by
  induction events generalizing progress with
  | nil =>
    cases h
    rfl
  | cons event events ih =>
    simp only [Progress.report] at h
    rcases hseen : observer progress.state event with ⟨state, _ | fault⟩
    · rw [hseen] at h
      simp [ih h]
    · rw [hseen] at h
      cases h

/-- A recorder behind an observer keeps exactly the events that the observer admits. -/
theorem report_recorder (observer : Observer σ) (state : σ) (seen events : List Event) :
    Progress.report (observer.both Observer.recorder) ⟨(state, seen), seen⟩ events =
      match Progress.report observer ⟨state, seen⟩ events with
      | (progress, veto) => (⟨(progress.state, progress.admitted), progress.admitted⟩, veto) := by
  induction events generalizing state seen with
  | nil => rfl
  | cons event events ih =>
    simp only [Progress.report, Observer.both]
    rcases observer state event with ⟨next, _ | fault⟩
    · exact ih next (event :: seen)
    · rfl

/-- A second observer that never vetoes changes nothing for the first. -/
theorem report_both_of_silent (observer : Observer σ) {second : Observer τ}
    (hsilent : ∀ state event, (second state event).2 = none) (state : σ) (other : τ)
    (seen events : List Event) :
    ∃ last, Progress.report (observer.both second) ⟨(state, other), seen⟩ events =
      match Progress.report observer ⟨state, seen⟩ events with
      | (progress, veto) => (⟨(progress.state, last), progress.admitted⟩, veto) := by
  induction events generalizing state other seen with
  | nil => exact ⟨other, rfl⟩
  | cons event events ih =>
    have hveto := hsilent other event
    simp only [Progress.report, Observer.both]
    rcases observer state event with ⟨next, _ | fault⟩
    · rcases hother : second other event with ⟨following, _ | fault⟩
      · exact ih next following (event :: seen)
      · rw [hother] at hveto
        cases hveto
    · exact ⟨other, rfl⟩

/-- An observer without a state admits everything. -/
theorem report_optional_none (observer : Observer σ) (seen events : List Event) :
    Progress.report observer.optional ⟨none, seen⟩ events =
      (⟨none, events.reverse ++ seen⟩, none) := by
  induction events generalizing seen with
  | nil => rfl
  | cons event events ih =>
    have hrest := ih (event :: seen)
    simp only [Progress.report, Observer.optional, hrest]
    simp

/-! ## Parses -/

/-- The trace of a text ends in one of three ways. -/
theorem textTrace_explained (text : String) :
    Explained text.utf8ByteSize (significant (lex text)) (textTrace text) :=
  traceGoals_explained fun _ => isTrivia_of_mem_significant

theorem parseText_eq (policy : FaultPolicy) (observer : Observer σ) (state : σ) (text : String) :
    parseText policy observer state text =
      match Progress.report observer { state } (textTrace text).events with
      | (progress, some fault) =>
        { state := progress.state, ending := .vetoed fault, result := .error fault }
      | (progress, none) =>
        { state := progress.state, ending := (textTrace text).ending,
          result := (textTrace text).result policy text } := by
  have hrun : run observer state text.utf8ByteSize (lex text) =
      (textTrace text).observe observer { state } := runGoals_eq_observe ..
  simp only [parseText, hrun, Trace.observe]
  rcases hreport : Progress.report observer { state } (textTrace text).events with
    ⟨progress, _ | fault⟩
  · -- Nothing was vetoed, so the tree is assembled from all events of the trace.
    have hadmitted : progress.events = (textTrace text).events := by
      rw [Progress.events, Progress.admitted_of_report hreport, List.append_nil,
        List.reverse_reverse]
    simp only [hadmitted]
    rfl
  · rfl

namespace Document

/-- The guard of a parse under limits, before the events of the text. -/
def guarded (limits : Limits) (source : Source) : Progress (Option Guard) × Option Fault :=
  Progress.report (Guard.observe source).optional { state := Guard.ofLimits? limits }
    (textTrace source.text).events

/-- The parse of the text behind the guard, its events recorded. -/
theorem parseText_recorded (limits : Limits) (source : Source) :
    parseText (.located source) (Observer.both (Guard.observe source).optional Observer.recorder)
      (Guard.ofLimits? limits, []) source.text =
      match guarded limits source with
      | (progress, some fault) =>
        { state := (progress.state, progress.admitted), ending := .vetoed fault,
          result := .error fault }
      | (progress, none) =>
        { state := (progress.state, progress.admitted), ending := (textTrace source.text).ending,
          result := (textTrace source.text).result (.located source) source.text } := by
  simp only [parseText_eq, report_recorder, guarded]
  rcases Progress.report (Guard.observe source).optional { state := Guard.ofLimits? limits }
    (textTrace source.text).events with ⟨progress, _ | fault⟩
  · rfl
  · rfl

theorem parseRecorded_eq (limits : Limits) (source : Source) :
    parseRecorded limits source =
      match limits.charCeiling?.filter (·.toNat < source.text.length) with
      | some ceiling => ([], .error { cause := .unreadable (.tooManyCharacters ceiling) })
      | none =>
        match guarded limits source with
        | (progress, some fault) => (progress.events, .error fault)
        | (progress, none) => (progress.events,
          ((textTrace source.text).result (.located source) source.text).map (·.1)) := by
  simp only [parseRecorded, parseObserved, readText_eq]
  cases limits.charCeiling?.filter (·.toNat < source.text.length) with
  | some ceiling => rfl
  | none =>
    simp only [parseText_recorded]
    rcases guarded limits source with ⟨progress, _ | fault⟩
    · rfl
    · rfl

theorem parse_eq (limits : Limits) (source : Source) :
    parse limits source = (parseRecorded limits source).2 := by
  rw [parseRecorded_eq]
  simp only [parse, parseObserved, readText_eq]
  cases limits.charCeiling?.filter (·.toNat < source.text.length) with
  | some ceiling => rfl
  | none =>
    -- A parse without a recorder has an observer in its place that never vetoes.
    have hsilent (state : Unit) (event : Event) :
        ((fun _ _ => ((), none) : Observer Unit) state event).2 = none := rfl
    obtain ⟨last, hreport⟩ := report_both_of_silent (Guard.observe source).optional hsilent
      (Guard.ofLimits? limits) () [] (textTrace source.text).events
    simp only [parseText_eq, guarded]
    rw [hreport]
    rcases Progress.report (Guard.observe source).optional { state := Guard.ofLimits? limits }
      (textTrace source.text).events with ⟨progress, _ | fault⟩
    · rfl
    · rfl

/-- Without limits the events are those of the trace, and its ending decides. -/
theorem parseRecorded_trusted (source : Source) :
    parseRecorded .trusted source =
      ((textTrace source.text).events,
        ((textTrace source.text).result (.located source) source.text).map (·.1)) := by
  have hguard : guarded .trusted source =
      (⟨none, (textTrace source.text).events.reverse ++ []⟩, none) :=
    report_optional_none _ _ _
  rw [parseRecorded_eq, hguard]
  simp [Limits.charCeiling?, Limits.ceiling?, Limits.trusted, Progress.events]

theorem parse_trusted (source : Source) :
    parse .trusted source =
      ((textTrace source.text).result (.located source) source.text).map (·.1) := by
  rw [parse_eq, parseRecorded_trusted]

end Document

end GuardedQuery
