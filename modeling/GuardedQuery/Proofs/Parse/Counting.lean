import GuardedQuery.Proofs.Parse.Protocol
import GuardedQuery.Proofs.Parse.Work
import GuardedQuery.Proofs.Run.Depth
import GuardedQuery.Proofs.Source.Reading
import GuardedQuery.Proofs.Source.Segments
import GuardedQuery.Proofs.Token.Tiling

/-! # The counts of a guard are exact

A guard counts in 32-bit words and does not look whether they wrap around.  They never do, in
whatever source and under whatever ceilings.  A ceiling on tokens bounds the open rules, since
a run gets only so deep for its tokens; without one the size of the source bounds the tokens.
Whichever ceiling is in force bounds its own count, to one more than itself.

- `Guard.Exact`: both counts of a guard are those of the events seen, in force or not.
- `Guard.observe_exact`, `Guard.exact_after`: events whose counts fit their words.
- `openRules_concat_le`, `terminalCount_le_size`: how large the counts of a run get.
- `InWords`, `inWords_of_shown`: they fit their words after every event of a parse.
- `Document.guard_counts_exactly`: the guard of every parse, at every moment.
-/

namespace GuardedQuery

variable {σ : Type}

/-- A parse leaves its observer as what it is shown leads to. -/
theorem state_parseText (policy : FaultPolicy) (observer : Observer σ) (state : σ)
    (text : String) :
    (parseText policy observer state text).state =
      observer.after state (shownTo observer state text) := by
  have hstate : (parseText policy observer state text).state =
      (run observer state text.utf8ByteSize (lex text)).1.state := rfl
  rw [hstate, run_fst, observer.state_report, shownTo_eq_shows]
  rfl

/-! ## Exact counts -/

structure InWords (events : List Event) : Prop where
  depth_nonneg : 0 ≤ openRules events
  depth_lt : openRules events < UInt32.size
  tokens_lt : terminalCount events < UInt32.size

theorem inWords_nil : InWords [] := ⟨by decide, by decide, by decide⟩

namespace Guard

variable {limits : Limits} {source : Source} {guard : Guard} {seen : List Event}

/-- The guard has the ceilings of the limits, and both of its counts are exactly those of the
events seen, whether a ceiling is put on them or not. -/
structure Exact (limits : Limits) (guard : Guard) (seen : List Event) : Prop where
  maxDepth : guard.maxDepth = limits.depthCeiling?
  maxTokens : guard.maxTokens = limits.tokenCeiling?
  depth : (guard.depth.toNat : Int) = openRules seen
  tokens : guard.tokens.toNat = terminalCount seen

theorem eq_fresh (h : ofLimits? limits = some guard) :
    guard = { maxDepth := limits.depthCeiling?, maxTokens := limits.tokenCeiling? } ∧
      (limits.depthCeiling?.isSome ∨ limits.tokenCeiling?.isSome) := by
  simp only [ofLimits?, Option.ite_none_left_eq_some, Option.some.injEq] at h
  obtain ⟨hsome, rfl⟩ := h
  refine ⟨rfl, ?_⟩
  rw [not_and_or] at hsome
  simpa [Option.isSome_iff_ne_none] using hsome

theorem exact_fresh (h : ofLimits? limits = some guard) : guard.Exact limits [] := by
  rw [(eq_fresh h).1]
  exact ⟨rfl, rfl, rfl, rfl⟩

/-- Where the counts fit their words, an exact guard stays exact, and what it compares with its
ceilings are exact counts. -/
theorem observe_exact (h : guard.Exact limits seen) {event : Event}
    (hwords : InWords (seen ++ [event])) :
    (observe source guard event).1.Exact limits (seen ++ [event]) ∧
      (observe source guard event).2 = breach? limits source seen event := by
  obtain ⟨hnonneg, hdepth, htokens⟩ := hwords
  obtain ⟨hmaxDepth, hmaxTokens, hopen, hcount⟩ := h
  rw [openRules_append] at hnonneg hdepth
  rw [terminalCount_append] at htokens
  cases event with
  | anomaly anomaly =>
    refine ⟨⟨hmaxDepth, hmaxTokens, ?_, ?_⟩, rfl⟩
    · simpa [observe] using hopen
    · simpa [observe] using hcount
  | exit rule =>
    rw [openRules_exit] at hnonneg
    have hdown := toNat_sub_one (show 1 ≤ guard.depth.toNat by omega)
    refine ⟨⟨hmaxDepth, hmaxTokens, ?_, ?_⟩, rfl⟩
    · simp only [observe, hdown, openRules_append, openRules_exit]
      omega
    · simpa [observe] using hcount
  | enter rule range text =>
    rw [openRules_enter] at hdepth
    have hup := toNat_add_one (show guard.depth.toNat + 1 < UInt32.size by omega)
    have hexact : ((guard.depth + 1).toNat : Int) = openRules seen + 1 := by omega
    refine ⟨⟨hmaxDepth, hmaxTokens, ?_, ?_⟩, ?_⟩
    · simpa [observe] using hexact
    · simpa [observe] using hcount
    · simp only [observe, breach?, hmaxDepth, passed?_eq_filter _ hexact]
  | terminal kind range text =>
    rw [terminalCount_terminal] at htokens
    have hup := toNat_add_one (show guard.tokens.toNat + 1 < UInt32.size by omega)
    have hexact : ((guard.tokens + 1).toNat : Int) = (terminalCount seen : Int) + 1 := by omega
    refine ⟨⟨hmaxDepth, hmaxTokens, ?_, ?_⟩, ?_⟩
    · simpa [observe] using hopen
    · simp only [observe, terminalCount_append, terminalCount_terminal]
      omega
    · simp only [observe, breach?, hmaxTokens, passed?_eq_filter _ hexact]

/-- Over events whose counts fit their words all the time, a guard stays exact. -/
theorem exact_after (source : Source) (h : ofLimits? limits = some guard)
    (hwords : ∀ before, before <+: seen → InWords before) :
    ((observe source).after guard seen).Exact limits seen := by
  induction seen using List.reverseRecOn with
  | nil => exact exact_fresh h
  | append_singleton seen event ih =>
    have hseen := ih fun before hbefore => hwords before (hbefore.trans (List.prefix_append _ _))
    rw [Observer.after_append]
    exact (observe_exact hseen (hwords _ List.prefix_rfl)).1

/-- Over events that are all admitted, a guard keeps under its ceilings. -/
theorem tracks_after (h : ofLimits? limits = some guard) (hnested : Nested seen)
    (hadmits : ∀ front event back, seen = front ++ event :: back →
      (observe source ((observe source).after guard front) event).2 = none) :
    ((observe source).after guard seen).Tracks limits seen := by
  induction seen using List.reverseRecOn with
  | nil =>
    rw [(eq_fresh h).1]
    exact tracks_fresh limits
  | append_singleton seen event ih =>
    have hseen := ih hnested.of_append fun front other back hsplit =>
      hadmits front other (back ++ [event]) (by rw [hsplit, List.append_assoc]; rfl)
    obtain ⟨hveto, htracks⟩ :
        (observe source ((observe source).after guard seen) event).2 =
            breach? limits source seen event ∧ _ :=
      observe_tracks hseen hnested.openRules_nonneg
    rw [Observer.after_append]
    exact htracks (hveto.symm.trans (hadmits seen event [] rfl))

end Guard

/-! ## How large the counts get -/

section sizes

variable {text : String} {seen front : List Event} {event : Event}

/-- A run takes no more tokens than its text has bytes. -/
theorem terminalCount_le_size (h : seen <+: (textTrace text).events) :
    terminalCount seen ≤ text.utf8ByteSize := by
  have hconducted : Conducted _ (significant (lex text)) (textTrace text) :=
    traceGoals_conducted _ _
  obtain ⟨events, rules, rest, htrace, hfollows⟩ := hconducted.exists_follows
  calc terminalCount seen
      ≤ terminalCount (textTrace text).events := h.sublist.countP_le
    _ = terminalCount events := by
        rw [htrace]
        rfl
    _ ≤ (significant (lex text)).length := hfollows.drop_eq.1
    _ ≤ (lex text).length := List.length_filter_le _ _
    _ ≤ text.utf8ByteSize := (lex_tiles text).length_le

/-- With an event no more rules are open than the bound says for the tokens in front of it. -/
theorem openRules_concat_le (h : front ++ [event] <+: (textTrace text).events) :
    openRules (front ++ [event]) ≤ depthBound (terminalCount front) := by
  have hshallow : Shallow 0 0 (textTrace text).events := traceGoals_shallow _ _
  have hfront := hshallow front ((List.prefix_append _ _).trans h)
  have hwith := hshallow _ h
  rw [openRules_append, terminalCount_append] at hwith
  rw [openRules_append]
  cases event <;> simp at hfront hwith ⊢ <;> omega

/-- While a guard keeps under its ceilings the counts fit their words, also with the event
that is one too many. -/
theorem Guard.Tracks.inWords {limits : Limits} {guard : Guard} (h : guard.Tracks limits front)
    (hceiling : limits.depthCeiling?.isSome ∨ limits.tokenCeiling?.isSome)
    (hsize : text.utf8ByteSize ≤ Source.maxSize)
    (hseen : front ++ [event] <+: (textTrace text).events) : InWords (front ++ [event]) := by
  have hnonneg := nested_textTrace text _ hseen
  have htokens := terminalCount_le_size hseen
  have hdepth := openRules_concat_le hseen
  have hmax : Source.maxSize = 4294967295 := rfl
  have hword : UInt32.size = 4294967296 := rfl
  rcases hceiling with hceiling | hceiling
  · -- A ceiling on the depth bounds the open rules, and the size of the source the tokens.
    obtain ⟨ceiling, hceiling⟩ := Option.isSome_iff_exists.1 hceiling
    obtain ⟨hcount, hbound⟩ := h.depth ceiling hceiling
    have hroom := Limits.ceiling?_lt hceiling
    have hstep : openRules (front ++ [event]) ≤ openRules front + 1 := by
      rw [openRules_append]
      cases event <;>
        simp only [openRules_enter, openRules_exit, openRules_terminal, openRules_anomaly] <;> omega
    exact ⟨hnonneg, by omega, by omega⟩
  · -- A ceiling on the tokens bounds them, and through them the open rules.
    obtain ⟨ceiling, hceiling⟩ := Option.isSome_iff_exists.1 hceiling
    obtain ⟨hcount, hbound⟩ := h.tokens ceiling hceiling
    have hroom := Limits.ceiling?_lt hceiling
    have hstep : terminalCount (front ++ [event]) ≤ terminalCount front + 1 := by
      rw [terminalCount_append]
      cases event <;> simp
    simp only [depthBound] at hdepth
    exact ⟨hnonneg, by omega, by omega⟩

end sizes

/-! ## Parses -/

section parses

variable {limits : Limits} {source : Source} {guard : Guard}

/-- Over whatever a guarded parse shows, the counts fit their words. -/
theorem inWords_of_shown (hsource : source.Built) (hguard : Guard.ofLimits? limits = some guard)
    (observer : Observer σ) (state : σ) {seen : List Event}
    (h : seen <+: Document.shown limits source observer state) : InWords seen := by
  rcases List.eq_nil_or_concat' seen with rfl | ⟨front, event, rfl⟩
  · exact inWords_nil
  rw [Document.shown] at h
  cases hread : readText limits source with
  | error fault =>
    rw [hread] at h
    simp at h
  | ok text =>
    have htext : text = source.text := by
      rw [readText_eq] at hread
      split at hread <;> cases hread
      rfl
    simp only [hread, shownTo_eq_shows, hguard] at h
    have hevents := h.trans (Observer.shows_prefix _ _ _)
    have hnested : Nested front := fun before hbefore =>
      nested_textTrace text before (hbefore.trans ((List.prefix_append _ _).trans hevents))
    -- The last event is shown behind all others, so the guard has admitted those.
    have htracks : ((Guard.observe source).after guard front).Tracks limits front := by
      refine Guard.tracks_after hguard hnested ?_
      rintro before other behind rfl
      obtain ⟨more, hmore⟩ := h
      rw [List.append_assoc, List.append_assoc] at hmore
      exact Observer.veto_of_shows_both_optional (by simp) hmore.symm
    refine htracks.inWords (Guard.eq_fresh hguard).2 ?_ hevents
    rw [htext, ← hsource.size_eq]
    exact hsource.size_le

namespace Document

/-- In every parse under limits that a guard watches, the guard ends as what it is shown leads
to.  After every event, the last one included, both of its counts are the exact ones and fit
their words, and the next event is vetoed just if an exact count is above its ceiling. -/
theorem guard_counts_exactly (hsource : source.Built)
    (hguard : Guard.ofLimits? limits = some guard) (observer : Observer σ) (state : σ) :
    (∀ text, readText limits source = .ok text →
      (parseText (.located source) (Observer.both (Guard.observe source).optional observer)
          (some guard, state) text).state.1 =
        some ((Guard.observe source).after guard (shown limits source observer state))) ∧
      ∀ seen, seen <+: shown limits source observer state →
        openRules seen < UInt32.size ∧ terminalCount seen < UInt32.size ∧
        (((Guard.observe source).after guard seen).depth.toNat : Int) = openRules seen ∧
        ((Guard.observe source).after guard seen).tokens.toNat = terminalCount seen ∧
        ∀ event, seen ++ [event] <+: shown limits source observer state →
          (Guard.observe source ((Guard.observe source).after guard seen) event).2 =
            breach? limits source seen event := by
  have hwords {seen : List Event} (h : seen <+: shown limits source observer state) :
      InWords seen :=
    inWords_of_shown hsource hguard observer state h
  have hexact {seen : List Event} (h : seen <+: shown limits source observer state) :
      ((Guard.observe source).after guard seen).Exact limits seen :=
    Guard.exact_after source hguard fun before hbefore => hwords (hbefore.trans h)
  constructor
  · intro text hread
    rw [state_parseText, Observer.after_both_optional, shown, hread, hguard]
  · intro seen hseen
    obtain ⟨-, hdepth, htokens⟩ := hwords hseen
    obtain ⟨-, -, hopen, htaken⟩ := hexact hseen
    refine ⟨hdepth, htokens, hopen, htaken, fun event hevent => ?_⟩
    exact (Guard.observe_exact (hexact hseen) (hwords hevent)).2

/-- Seven tokens may be taken, the last two the brackets of list types.  When the eighth is
vetoed the guard has counted it, and the ten rules that are open around it. -/
theorem guard_counts_exactly_in_list_types :
    let source : Source := ⟨[⟨none, "query($a:[[b]])\x7bc\x7d", 0⟩], 18⟩
    let limits : Limits := { chars := 0, depth := 0, tokens := 7 }
    let guard : Guard := { maxDepth := none, maxTokens := some 7 }
    let events := shown limits source Observer.recorder []
    let last := (Guard.observe source).after guard events
    source.Built ∧ Guard.ofLimits? limits = some guard ∧
      (openRules events = 10 ∧ terminalCount events = 8) ∧
      (last.depth.toNat : Int) = 10 ∧ last.tokens.toNat = 8 := by
  intro source limits guard events last
  have hpieces : Source.ofPieces [(none, "query($a:[[b]])\x7bc\x7d")] = .ok source := by
    decide +kernel
  have hsource : source.Built := Source.built_ofPieces hpieces
  have hguard : Guard.ofLimits? limits = some guard := by decide
  have hcounts : openRules events = 10 ∧ terminalCount events = 8 := by decide +kernel
  obtain ⟨-, -, hdepth, htokens, -⟩ :=
    (guard_counts_exactly hsource hguard Observer.recorder []).2 events List.prefix_rfl
  exact ⟨hsource, hguard, hcounts, hdepth.trans hcounts.1, htokens.trans hcounts.2⟩

end Document

end parses

end GuardedQuery
