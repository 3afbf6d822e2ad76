import GuardedQuery.Proofs.Parse.Ceilings
import GuardedQuery.Proofs.Parse.Showing
import GuardedQuery.Proofs.Run.Frugality

/-! # The work of a parse

A parse reports no more than its tokens pay for.  So a ceiling on tokens alone bounds the
rules that a parse enters, and with them the tree, whoever else looks on and may veto.

- `shownTo`: what a run shows its observer, up to and with the event that is vetoed.
- `Linear`: events that are linear in the tokens taken, at every moment.
- `Guard.Tracks.terminalCount_le`: no more tokens get past a guard than its ceiling.
- `Document.shown_linear`: the work of every run and every parse.
-/

namespace GuardedQuery

variable {σ : Type}

/-! ## What an observer is shown -/

/-- All that a run over a text shows its observer, the event that it vetoes included. -/
def shownTo (observer : Observer σ) (state : σ) (text : String) : List Event :=
  (run (Observer.recorder.both observer) ([], state) text.utf8ByteSize (lex text)).1.state.1.reverse

def Document.shown (limits : Limits) (source : Source) (observer : Observer σ) (state : σ) :
    List Event :=
  match readText limits source with
  | .error _ => []
  | .ok text => shownTo (Observer.both (Guard.observe source).optional observer)
      (Guard.ofLimits? limits, state) text

theorem run_fst (observer : Observer σ) (state : σ) (size : Nat) (tokens : List Token) :
    (run observer state size tokens).1 =
      (Progress.report observer { state }
        (traceGoals size (significant tokens) documentGoals).events).1 := by
  rw [run, runGoals_eq_observe, Trace.observe]
  rcases Progress.report observer { state }
    (traceGoals size (significant tokens) documentGoals).events with ⟨progress, _ | fault⟩
  · rfl
  · rfl

/-- The log changes nothing for the run that it is kept of. -/
theorem run_log (observer : Observer σ) (state : σ) (size : Nat) (tokens : List Token) :
    let logged := run (Observer.recorder.both observer) ([], state) size tokens
    let plain := run observer state size tokens
    logged.1.state.2 = plain.1.state ∧ logged.2 = plain.2 := by
  simp only [run, runGoals_eq_observe, Trace.observe, Observer.report_log]
  rcases Progress.report observer { state }
    (traceGoals size (significant tokens) documentGoals).events with ⟨progress, _ | fault⟩
  · exact ⟨rfl, rfl⟩
  · exact ⟨rfl, rfl⟩

/-- What a run shows is what its trace shows. -/
theorem shownTo_eq_shows (observer : Observer σ) (state : σ) (text : String) :
    shownTo observer state text = observer.shows state (textTrace text).events := by
  rw [shownTo, run_fst, Observer.report_log, List.append_nil, List.reverse_reverse]
  rfl

/-- An observer is shown what it admits of the trace, and the event behind that if it vetoes
one. -/
theorem shownTo_eq (observer : Observer σ) (state : σ) (text : String) :
    (∃ vetoed : Option Event, shownTo observer state text =
      (Progress.report observer { state } (textTrace text).events).1.events ++ vetoed.toList) ∧
    shownTo observer state text <+: (textTrace text).events := by
  rw [shownTo_eq_shows]
  refine ⟨?_, observer.shows_prefix state _⟩
  obtain ⟨vetoed, hvetoed⟩ := observer.exists_vetoed state [] (textTrace text).events
  rw [List.append_nil, List.reverse_eq_iff, List.reverse_append] at hvetoed
  refine ⟨vetoed, hvetoed.trans ?_⟩
  cases vetoed <;> rfl

/-! ## Counting events -/

def Event.isAnomaly : Event → Bool
  | anomaly _ => true
  | _ => false

theorem length_eq_counts (events : List Event) :
    events.length = enterCount events + events.countP Event.isExit + terminalCount events +
      events.countP Event.isAnomaly := by
  induction events with
  | nil => rfl
  | cons event events ih =>
    simp only [enterCount, terminalCount] at ih ⊢
    cases event <;>
      simp only [List.length_cons, List.countP_cons, ih, Event.isEnter, Event.isExit,
        Event.isTerminal, Event.isAnomaly] <;> simp <;> omega

/-- A run comes to one anomaly at most. -/
theorem Follows.anomalyCount_le {size : Nat} {rules last : List NodeKind}
    {tokens rest : List Token} {events : List Event}
    (h : Follows size rules tokens events last rest) : events.countP Event.isAnomaly ≤ 1 := by
  induction h with
  | nil => exact Nat.zero_le 1
  | enter _ _ ih => exact ih
  | exit _ ih => exact ih
  | terminal _ _ ih => exact ih
  | anomaly => exact Nat.le_refl 1

theorem anomalyCount_textTrace (text : String) :
    (textTrace text).events.countP Event.isAnomaly ≤ 1 := by
  have hconducted : Conducted _ _ (textTrace text) := traceGoals_conducted _ _
  generalize textTrace text = trace at hconducted ⊢
  cases hconducted with
  | complete h | trailing h _ _ | anomaly h => exact h.anomalyCount_le

/-! ## Linear work -/

structure Linear (events : List Event) : Prop where
  enters : ∀ before, before <+: events → enterCount before ≤ 2 * terminalCount before + 3
  depth : ∀ before, before <+: events → openRules before ≤ 2 * terminalCount before + 3
  length : events.length ≤ 5 * terminalCount events + 7

theorem linear_nil : Linear [] where
  enters before h := by simp [List.prefix_nil.1 h]
  depth before h := by simp [List.prefix_nil.1 h]
  length := Nat.zero_le _

/-- Whatever a run has reported so far is linear in the tokens taken. -/
theorem linear_of_isPrefix {text : String} {events : List Event}
    (h : events <+: (textTrace text).events) : Linear events := by
  have hmodest : Modest 3 events := fun before hbefore =>
    traceGoals_modest _ _ before (hbefore.trans h)
  constructor
  case enters => exact hmodest
  case depth =>
    intro before hbefore
    have henters := hmodest before hbefore
    rw [enterCount] at henters
    rw [openRules]
    omega
  case length =>
    have hexits := nested_textTrace text events h
    have henters := hmodest events (List.prefix_refl events)
    have hanomalies := Nat.le_trans h.sublist.countP_le (anomalyCount_textTrace text)
    rw [enterCount] at henters
    rw [openRules] at hexits
    rw [length_eq_counts, enterCount]
    omega

/-! ## Under a ceiling on tokens -/

/-- No more tokens get past a guard than its ceiling says, whoever looks on behind it. -/
theorem Guard.Tracks.terminalCount_le {limits : Limits} {guard : Guard} {seen : List Event}
    {ceiling : UInt32} (h : guard.Tracks limits seen)
    (hceiling : limits.tokenCeiling? = some ceiling) (source : Source) (observer : Observer σ)
    (state : σ) (later : List Event) (hnested : Nested (seen ++ later)) :
    terminalCount (Progress.report (Observer.both (Guard.observe source).optional observer)
      ⟨(some guard, state), seen.reverse⟩ later).1.events ≤ ceiling.toNat := by
  have hseen : terminalCount seen ≤ ceiling.toNat := by
    obtain ⟨hcount, hbound⟩ := h.tokens ceiling hceiling
    omega
  have hstop (other : Option Guard × σ) :
      terminalCount (⟨other, seen.reverse⟩ : Progress (Option Guard × σ)).events ≤
        ceiling.toNat := by
    rwa [Progress.events, List.reverse_reverse]
  induction later generalizing guard state seen with
  | nil => exact hstop _
  | cons event later ih =>
    rw [List.append_cons] at hnested
    obtain ⟨hveto, htracks⟩ : (Guard.observe source guard event).2 =
        breach? limits source seen event ∧ _ :=
      Guard.observe_tracks h hnested.of_append.openRules_nonneg
    simp only [Progress.report, Observer.both, Observer.optional]
    rcases hobserve : Guard.observe source guard event with ⟨next, _ | fault⟩
    · rw [hobserve] at hveto htracks
      have hnext := htracks hveto.symm
      rcases observer state event with ⟨following, _ | fault⟩
      · have hrest : terminalCount (seen ++ [event]) ≤ ceiling.toNat := by
          obtain ⟨hcount, hbound⟩ := hnext.tokens ceiling hceiling
          omega
        have hmore := ih hnext following hnested hrest fun other => by
          rwa [Progress.events, List.reverse_reverse]
        rwa [List.reverse_append] at hmore
      · exact hstop _
    · exact hstop _

/-- Behind a guard no more rules are entered than its ceiling on tokens pays for. -/
theorem enterCount_shownTo_le {limits : Limits} {ceiling : UInt32}
    (hceiling : limits.tokenCeiling? = some ceiling) (source : Source) (observer : Observer σ)
    (state : σ) (text : String) :
    enterCount (shownTo (Observer.both (Guard.observe source).optional observer)
      (Guard.ofLimits? limits, state) text) ≤ 2 * ceiling.toNat + 3 := by
  have hguard : Guard.ofLimits? limits =
      some { maxDepth := limits.depthCeiling?, maxTokens := limits.tokenCeiling? } := by
    simp [Guard.ofLimits?, hceiling]
  have hadmitted := (Guard.tracks_fresh limits).terminalCount_le hceiling source observer state
    (textTrace text).events (nested_textTrace text)
  rw [List.reverse_nil, ← hguard] at hadmitted
  obtain ⟨⟨vetoed, hshown⟩, hstarts⟩ := shownTo_eq
    (Observer.both (Guard.observe source).optional observer) (Guard.ofLimits? limits, state) text
  have hlinear := linear_of_isPrefix hstarts
  have hfront := hlinear.enters _ ⟨vetoed.toList, hshown.symm⟩
  have henters := hlinear.enters _ (List.prefix_refl _)
  rw [hshown, enterCount_append, terminalCount_append] at henters
  rw [hshown, enterCount_append]
  have hvetoed : enterCount vetoed.toList = 0 ∨ terminalCount vetoed.toList = 0 := by
    cases vetoed with
    | none => exact .inl rfl
    | some event =>
      cases event with
      | enter _ _ _ => exact .inr rfl
      | exit _ | terminal _ _ _ | anomaly _ => exact .inl rfl
  omega

namespace Document

/-- The events of every run are linear in the tokens taken, whoever looks on, and so are
those of every parse.  They are what the run without the log admits, and the event that it stops
at, if there is one.  Where a parse has a ceiling on tokens, that bounds the rules it enters. -/
theorem shown_linear (observer : Observer σ) (state : σ) :
    (∀ text,
      let logged := run (Observer.recorder.both observer) ([], state) text.utf8ByteSize (lex text)
      let plain := run observer state text.utf8ByteSize (lex text)
      Linear (shownTo observer state text) ∧
        (∃ vetoed : Option Event,
          shownTo observer state text = plain.1.events ++ vetoed.toList) ∧
        logged.1.state.2 = plain.1.state ∧ logged.2 = plain.2) ∧
    ∀ limits source, Linear (shown limits source observer state) ∧
      ∀ ceiling, limits.tokenCeiling? = some ceiling →
        enterCount (shown limits source observer state) ≤ 2 * ceiling.toNat + 3 := by
  refine ⟨fun text => ?_, fun limits source => ?_⟩
  · obtain ⟨hadmitted, hprefix⟩ := shownTo_eq observer state text
    obtain ⟨hstate, hending⟩ := run_log observer state text.utf8ByteSize (lex text)
    refine ⟨linear_of_isPrefix hprefix, ?_, hstate, hending⟩
    rwa [run_fst]
  · rw [shown]
    cases readText limits source with
    | error _ => exact ⟨linear_nil, fun _ _ => Nat.zero_le _⟩
    | ok text =>
      exact ⟨linear_of_isPrefix (shownTo_eq _ _ text).2,
        fun ceiling hceiling => enterCount_shownTo_le hceiling source observer state text⟩

/-- One token may be taken: five rules are entered, the alias of the first field the last of
them, before the second token is one too many. -/
theorem shown_linear_of_alias :
    let source : Source := ⟨[⟨none, "\x7ba:b\x7d", 0⟩], 5⟩
    let limits : Limits := { chars := 0, depth := 0, tokens := 1 }
    let events := shown limits source Observer.recorder []
    limits.tokenCeiling? = some 1 ∧ enterCount events = 5 ∧ enterCount events ≤ 2 * 1 + 3 := by
  intro source limits events
  have hceiling : limits.tokenCeiling? = some 1 := by decide
  exact ⟨hceiling, by decide +kernel, ((shown_linear Observer.recorder []).2 limits source).2 1
    hceiling⟩

end Document

end GuardedQuery
