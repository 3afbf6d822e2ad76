import GuardedQuery.Proofs.Parse.Observation
import GuardedQuery.Proofs.Tree.Nesting

/-! # Ceilings cut the run without limits

A guard never changes what a parse does; it only ends it.  Its counts follow the events
exactly, and never wrap around, since a ceiling is far below the greatest count.

- `Breach`: an event is one too many.
- `Guard.Tracks`: the counts of a guard, put against the events seen.
- `Guard.observe_tracks`, `report_guard`: one event, and all events, before a guard.
- `Document.parseRecorded_under_ceilings`: a parse under limits, from the one without.
-/

namespace GuardedQuery

open GuardedQuery.Tree

/-! ## Ceilings -/

/-- A ceiling leaves room in its word for one more. -/
theorem Limits.ceiling?_lt {limits : Limits} {value : Int32} {ceiling : UInt32}
    (h : limits.ceiling? value = some ceiling) : ceiling.toNat < 2147483648 := by
  simp only [ceiling?, Option.ite_none_left_eq_some, Option.some.injEq] at h
  obtain ⟨hpositive, rfl⟩ := h
  have hnonneg : 0 ≤ value := by
    rw [not_or, Int32.not_le] at hpositive
    exact Int32.le_of_lt hpositive.2
  rw [Int32.toNat_toUInt32_of_le hnonneg]
  exact Int32.toNatClampNeg_lt value

/-- The event with that number is one too many: with it more rules are open than the one
ceiling allows, or more tokens are taken than the other. -/
inductive Breach (limits : Limits) (source : Source) (events : List Event) (index : Nat) :
    Fault → Prop where
  | depth {rule : NodeKind} {range : ByteRange} {text : String} {ceiling : UInt32}
      (hevent : events[index]? = some (.enter rule range text))
      (hceiling : limits.depthCeiling? = some ceiling)
      (hover : (ceiling.toNat : Int) < openRules (events.take (index + 1))) :
      Breach limits source events index
        ⟨.tooDeep ceiling, some text, source.locate range.start⟩
  | tokens {kind : TokenKind} {range : ByteRange} {text : String} {ceiling : UInt32}
      (hevent : events[index]? = some (.terminal kind range text))
      (hceiling : limits.tokenCeiling? = some ceiling)
      (hover : ceiling.toNat < terminalCount (events.take (index + 1))) :
      Breach limits source events index
        ⟨.tooManyTokens ceiling, some text, source.locate range.start⟩

def breach? (limits : Limits) (source : Source) (seen : List Event) : Event → Option Fault
  | .enter _ range text =>
    (limits.depthCeiling?.filter fun ceiling => (ceiling.toNat : Int) < openRules seen + 1).map
      fun ceiling => Guard.faultAt source (.tooDeep ceiling) range text
  | .terminal _ range text =>
    (limits.tokenCeiling?.filter fun ceiling =>
        (ceiling.toNat : Int) < (terminalCount seen : Int) + 1).map
      fun ceiling => Guard.faultAt source (.tooManyTokens ceiling) range text
  | .exit _ | .anomaly _ => none

variable {limits : Limits} {source : Source}

theorem breach_iff {events : List Event} {index : Nat} {fault : Fault} :
    Breach limits source events index fault ↔
      ∃ event, events[index]? = some event ∧
        breach? limits source (events.take index) event = some fault := by
  have htake {event : Event} (hevent : events[index]? = some event) :
      events.take (index + 1) = events.take index ++ [event] := by
    rw [List.take_add_one, hevent]
    rfl
  constructor
  · intro h
    cases h with
    | depth hevent hceiling hover =>
      refine ⟨_, hevent, ?_⟩
      rw [htake hevent, openRules_append, openRules_enter] at hover
      simp [breach?, hceiling, Option.filter, hover, Guard.faultAt]
    | @tokens _ _ _ ceiling hevent hceiling hover =>
      refine ⟨_, hevent, ?_⟩
      rw [htake hevent, terminalCount_append, terminalCount_terminal] at hover
      have hover : (ceiling.toNat : Int) < (terminalCount (events.take index) : Int) + 1 := by omega
      simp [breach?, hceiling, Option.filter, hover, Guard.faultAt]
  · rintro ⟨event, hevent, hbreach⟩
    cases event with
    | exit _ | anomaly _ => cases hbreach
    | enter rule range text =>
      obtain ⟨ceiling, hfilter, rfl⟩ := Option.map_eq_some_iff.1 hbreach
      obtain ⟨hceiling, hover⟩ := Option.filter_eq_some_iff.1 hfilter
      refine .depth hevent hceiling ?_
      rw [htake hevent, openRules_append, openRules_enter]
      exact of_decide_eq_true hover
    | terminal kind range text =>
      obtain ⟨ceiling, hfilter, rfl⟩ := Option.map_eq_some_iff.1 hbreach
      obtain ⟨hceiling, hover⟩ := Option.filter_eq_some_iff.1 hfilter
      refine .tokens hevent hceiling ?_
      rw [htake hevent, terminalCount_append, terminalCount_terminal]
      have hover := of_decide_eq_true hover
      omega

theorem breach?_eq_none {events : List Event} {index : Nat} {event : Event}
    (h : ∀ fault, ¬ Breach limits source events index fault)
    (hevent : events[index]? = some event) :
    breach? limits source (events.take index) event = none := by
  cases hbreach : breach? limits source (events.take index) event with
  | none => rfl
  | some fault => exact (h fault (breach_iff.2 ⟨event, hevent, hbreach⟩)).elim

/-! ## One event before a guard -/

namespace Guard

theorem toNat_add_one {count : UInt32} (h : count.toNat + 1 < UInt32.size) :
    (count + 1).toNat = count.toNat + 1 := by
  rw [UInt32.toNat_add]
  exact Nat.mod_eq_of_lt h

/-- Where something is open a guard does count down. -/
theorem toNat_sub_one {count : UInt32} (h : 1 ≤ count.toNat) :
    (if count = 0 then 0 else count - 1).toNat = count.toNat - 1 := by
  have hopen : (1 : UInt32) ≤ count := UInt32.le_iff_toNat_le.2 h
  have hne : count ≠ 0 := by
    rintro rfl
    exact absurd h (by decide)
  rw [if_neg hne, UInt32.toNat_sub_of_le _ _ hopen]
  rfl

/-- A count passes a ceiling exactly if its number does. -/
theorem passed?_eq_filter (ceiling? : Option UInt32) {count : UInt32} {number : Int}
    (h : (count.toNat : Int) = number) :
    passed? ceiling? count = ceiling?.filter fun ceiling => (ceiling.toNat : Int) < number := by
  subst h
  simp [passed?, UInt32.lt_iff_toNat_lt]

def Counts (ceiling? : Option UInt32) (count : UInt32) (number : Int) : Prop :=
  ∀ ceiling, ceiling? = some ceiling →
    (count.toNat : Int) = number ∧ count.toNat ≤ ceiling.toNat

/-- Counting one more passes the ceiling exactly if the number does, and the word follows
the number otherwise. -/
theorem Counts.add_one {ceiling? : Option UInt32} {count : UInt32} {number : Int}
    (h : Counts ceiling? count number)
    (hceiling : ∀ ceiling, ceiling? = some ceiling → ceiling.toNat < 2147483648) :
    passed? ceiling? (count + 1) =
        ceiling?.filter (fun ceiling => (ceiling.toNat : Int) < number + 1) ∧
      (passed? ceiling? (count + 1) = none → Counts ceiling? (count + 1) (number + 1)) := by
  cases ceiling? with
  | none => exact ⟨rfl, fun _ _ hsome => by cases hsome⟩
  | some ceiling =>
    obtain ⟨hnumber, hbound⟩ := h ceiling rfl
    have hroom := hceiling ceiling rfl
    -- A ceiling is a positive word of 31 bits, so one more than it does not wrap around.
    have hup := toNat_add_one (show count.toNat + 1 < 4294967296 by omega)
    have hnext : ((count + 1).toNat : Int) = number + 1 := by omega
    have hpassed := passed?_eq_filter (some ceiling) hnext
    refine ⟨hpassed, fun hnone other hother => ⟨hnext, ?_⟩⟩
    obtain rfl : ceiling = other := Option.some.inj hother
    have hover : ¬ (ceiling.toNat : Int) < number + 1 := by
      simpa [hpassed, Option.filter] using hnone
    omega

/-- The guard has the ceilings of the limits, and its counts are those of the events seen. -/
structure Tracks (limits : Limits) (guard : Guard) (seen : List Event) : Prop where
  maxDepth : guard.maxDepth = limits.depthCeiling?
  maxTokens : guard.maxTokens = limits.tokenCeiling?
  depth : Counts limits.depthCeiling? guard.depth (openRules seen)
  tokens : Counts limits.tokenCeiling? guard.tokens (terminalCount seen)

/-- A fresh guard has seen nothing. -/
theorem tracks_fresh (limits : Limits) :
    Tracks limits { maxDepth := limits.depthCeiling?, maxTokens := limits.tokenCeiling? } [] :=
  ⟨rfl, rfl, fun _ _ => ⟨rfl, Nat.zero_le _⟩, fun _ _ => ⟨rfl, Nat.zero_le _⟩⟩

variable {guard : Guard} {seen : List Event}

/-- A guard that tracks the events vetoes the next one exactly if it is one too many, and
tracks the events with it otherwise. -/
theorem observe_tracks (h : guard.Tracks limits seen) {event : Event}
    (hnested : 0 ≤ openRules (seen ++ [event])) :
    (observe source guard event).2 = breach? limits source seen event ∧
      (breach? limits source seen event = none →
        (observe source guard event).1.Tracks limits (seen ++ [event])) := by
  cases event with
  | anomaly anomaly =>
    refine ⟨rfl, fun _ => ⟨h.maxDepth, h.maxTokens, ?_, ?_⟩⟩
    · simpa [observe] using h.depth
    · simpa [observe] using h.tokens
  | exit rule =>
    refine ⟨rfl, fun _ => ⟨h.maxDepth, h.maxTokens, fun ceiling hceiling => ?_, ?_⟩⟩
    · obtain ⟨hdepth, hbound⟩ := h.depth ceiling hceiling
      rw [openRules_append, openRules_exit] at hnested
      have hdown := toNat_sub_one (show 1 ≤ guard.depth.toNat by omega)
      simp only [observe, hdown, openRules_append, openRules_exit]
      omega
    · simpa [observe] using h.tokens
  | enter rule range text =>
    obtain ⟨hpassed, hcounts⟩ := h.depth.add_one fun _ => Limits.ceiling?_lt
    constructor
    · simp only [observe, breach?, h.maxDepth, hpassed]
    · intro hnone
      rw [breach?, Option.map_eq_none_iff, ← hpassed] at hnone
      refine ⟨h.maxDepth, h.maxTokens, ?_, ?_⟩
      · simpa [observe] using hcounts hnone
      · simpa [observe] using h.tokens
  | terminal kind range text =>
    obtain ⟨hpassed, hcounts⟩ := h.tokens.add_one fun _ => Limits.ceiling?_lt
    constructor
    · simp only [observe, breach?, h.maxTokens, hpassed]
    · intro hnone
      rw [breach?, Option.map_eq_none_iff, ← hpassed] at hnone
      refine ⟨h.maxDepth, h.maxTokens, ?_, ?_⟩
      · simpa [observe] using h.depth
      · simpa [observe] using hcounts hnone

end Guard

/-! ## All events before a guard -/

def firstBreach? (limits : Limits) (source : Source) (seen : List Event) :
    List Event → Option (List Event × Fault)
  | [] => none
  | event :: later =>
    match breach? limits source seen event with
    | some fault => some (seen, fault)
    | none => firstBreach? limits source (seen ++ [event]) later

theorem firstBreach?_eq_some {seen later : List Event} {index : Nat} {event : Event}
    {fault : Fault} (hevent : later[index]? = some event)
    (hbreach : breach? limits source (seen ++ later.take index) event = some fault)
    (hleast : ∀ earlier < index, ∀ other, later[earlier]? = some other →
      breach? limits source (seen ++ later.take earlier) other = none) :
    firstBreach? limits source seen later = some (seen ++ later.take index, fault) := by
  induction later generalizing seen index with
  | nil => simp at hevent
  | cons first later ih =>
    cases index with
    | zero =>
      simp only [List.getElem?_cons_zero, Option.some.injEq, List.take_zero,
        List.append_nil] at hevent hbreach ⊢
      subst hevent
      rw [firstBreach?, hbreach]
    | succ index =>
      have hfirst : breach? limits source seen first = none := by
        simpa using hleast 0 (Nat.zero_lt_succ index) first rfl
      have hrest : firstBreach? limits source (seen ++ [first]) later =
          some (seen ++ [first] ++ later.take index, fault) := by
        refine ih (by simpa using hevent) (by simpa using hbreach) ?_
        intro earlier hearlier other hother
        simpa using hleast (earlier + 1) (Nat.succ_lt_succ hearlier) other (by simpa using hother)
      rw [firstBreach?, hfirst]
      simpa using hrest

theorem firstBreach?_eq_none {seen later : List Event}
    (hclear : ∀ index event, later[index]? = some event →
      breach? limits source (seen ++ later.take index) event = none) :
    firstBreach? limits source seen later = none := by
  induction later generalizing seen with
  | nil => rfl
  | cons first later ih =>
    have hfirst : breach? limits source seen first = none := by simpa using hclear 0 first rfl
    rw [firstBreach?, hfirst]
    refine ih fun index event hevent => ?_
    simpa using hclear (index + 1) event (by simpa using hevent)

theorem firstBreach?_of_breach {events : List Event} {index : Nat} {fault : Fault}
    (h : Breach limits source events index fault)
    (hleast : ∀ earlier < index, ∀ other, ¬ Breach limits source events earlier other) :
    firstBreach? limits source [] events = some (events.take index, fault) := by
  obtain ⟨event, hevent, hbreach⟩ := breach_iff.1 h
  exact firstBreach?_eq_some hevent hbreach fun earlier hearlier other hother =>
    breach?_eq_none (hleast earlier hearlier) hother

theorem firstBreach?_of_clear {events : List Event}
    (h : ∀ index fault, ¬ Breach limits source events index fault) :
    firstBreach? limits source [] events = none :=
  firstBreach?_eq_none fun index _ hevent => breach?_eq_none (h index) hevent

/-- A guard ends a run exactly at the first event that is one too many. -/
theorem report_guard (source : Source) {guard : Guard} {seen later : List Event}
    (h : guard.Tracks limits seen) (hnested : Nested (seen ++ later)) :
    ∃ last, Progress.report (Guard.observe source).optional ⟨some guard, seen.reverse⟩ later =
      match firstBreach? limits source seen later with
      | some (before, fault) => (⟨some last, before.reverse⟩, some fault)
      | none => (⟨some last, (seen ++ later).reverse⟩, none) := by
  induction later generalizing guard seen with
  | nil => exact ⟨guard, by simp [Progress.report, firstBreach?]⟩
  | cons event later ih =>
    rw [List.append_cons] at hnested
    obtain ⟨hveto, htracks⟩ : (Guard.observe source guard event).2 =
        breach? limits source seen event ∧ _ :=
      Guard.observe_tracks h hnested.of_append.openRules_nonneg
    rcases hobserve : Guard.observe source guard event with ⟨next, veto⟩
    rw [hobserve] at hveto htracks
    cases veto with
    | some fault =>
      refine ⟨next, ?_⟩
      simp [Progress.report, Observer.optional, hobserve, firstBreach?, ← hveto]
    | none =>
      obtain ⟨last, hlast⟩ := ih (htracks hveto.symm) hnested
      refine ⟨last, ?_⟩
      rw [List.reverse_append] at hlast
      simp only [Progress.report, Observer.optional, hobserve, firstBreach?, ← hveto]
      simpa using hlast

/-- What limits do to the run over a source. -/
theorem Document.guarded_eq (limits : Limits)
    (hnested : Nested (textTrace source.text).events) :
    ∃ last, guarded limits source =
      match firstBreach? limits source [] (textTrace source.text).events with
      | some (before, fault) => (⟨last, before.reverse⟩, some fault)
      | none => (⟨last, (textTrace source.text).events.reverse⟩, none) := by
  rw [guarded, Guard.ofLimits?]
  by_cases hoff : limits.depthCeiling?.isNone ∧ limits.tokenCeiling?.isNone
  · -- Without a ceiling there is no guard, and nothing can be one too many.
    have hclear : firstBreach? limits source [] (textTrace source.text).events = none := by
      refine firstBreach?_eq_none fun index event _ => ?_
      cases event with
      | enter _ _ _ => simp [breach?, Option.isNone_iff_eq_none.1 hoff.1]
      | terminal _ _ _ => simp [breach?, Option.isNone_iff_eq_none.1 hoff.2]
      | exit _ | anomaly _ => rfl
    refine ⟨none, ?_⟩
    rw [if_pos hoff, hclear, report_optional_none, List.append_nil]
  · obtain ⟨last, hlast⟩ := report_guard source (Guard.tracks_fresh limits) hnested
    refine ⟨some last, ?_⟩
    rw [if_neg hoff]
    rw [List.reverse_nil] at hlast
    rw [hlast]
    cases firstBreach? limits source [] (textTrace source.text).events with
    | none => rfl
    | some breach => rfl

/-! ## Parses under ceilings -/

theorem nested_document {children : List Tree}
    (hderives : Grammar.Derives (Grammar.production .document false) children) :
    Nested (allEvents [.node .document children]) := by
  have hproper := hderives.proper (Grammar.production_isInner _ _)
  have hleaves := hderives.allLeaves_ne_nil (Grammar.production_nullable _ _)
  have hbalanced : Balanced (Tree.node .document children).events :=
    balanced_node hleaves hproper (balanced_allEvents hproper)
  simpa [allEvents] using hbalanced.nested

/-- A run leaves no rule before it enters it, also where it stops at a fault. -/
theorem nested_textTrace (text : String) : Nested (textTrace text).events := by
  have hexplained := textTrace_explained text
  generalize textTrace text = trace at hexplained ⊢
  cases hexplained with
  | complete hderives _ => exact nested_document hderives
  | trailing hderives _ _ => exact nested_document hderives
  | anomaly hderives _ _ hevents _ =>
    -- The events are the beginning of a walk, and the rules that the fault enters.
    have hwalk := nested_document hderives
    rw [hevents] at hwalk
    refine hwalk.of_append.append_of_no_exit fun event member => ?_
    rcases List.mem_append.1 member with member | member
    · obtain ⟨rule, -, rfl⟩ := List.mem_map.1 member
      rfl
    · obtain rfl := List.mem_singleton.1 member
      rfl

namespace Document

theorem filter_charCeiling?_eq_none
    (hchars : ∀ ceiling, limits.charCeiling? = some ceiling →
      source.text.length ≤ ceiling.toNat) :
    limits.charCeiling?.filter (·.toNat < source.text.length) = none := by
  rw [Option.filter_eq_none_iff]
  intro ceiling hceiling
  simpa using hchars ceiling hceiling

/-- Unless there are too many characters, a parse under limits ends with the first event
that is one too many, or as it ends without limits. -/
theorem parseRecorded_of_chars
    (hchars : ∀ ceiling, limits.charCeiling? = some ceiling →
      source.text.length ≤ ceiling.toNat) :
    parseRecorded limits source =
      match firstBreach? limits source [] (parseRecorded .trusted source).1 with
      | some (before, fault) => (before, .error fault)
      | none => parseRecorded .trusted source := by
  obtain ⟨last, hguarded⟩ := guarded_eq limits (nested_textTrace source.text)
  rw [parseRecorded_eq, filter_charCeiling?_eq_none hchars, parseRecorded_trusted]
  simp only [hguarded]
  cases firstBreach? limits source [] (textTrace source.text).events with
  | none => simp [Progress.events]
  | some breach => simp [Progress.events]

/-- A parse under limits is the parse without, cut where a ceiling is passed first.  A
source with too many characters gives no event.  Otherwise the first event that is one too
many ends the parse and is not recorded; if there is none, nothing changes. -/
theorem parseRecorded_under_ceilings (limits : Limits) (source : Source) :
    (∀ ceiling, limits.charCeiling? = some ceiling → ceiling.toNat < source.text.length →
      parseRecorded limits source =
        ([], .error { cause := .unreadable (.tooManyCharacters ceiling) })) ∧
    ((∀ ceiling, limits.charCeiling? = some ceiling → source.text.length ≤ ceiling.toNat) →
      (∀ index fault, Breach limits source (parseRecorded .trusted source).1 index fault →
        (∀ earlier < index, ∀ other,
          ¬ Breach limits source (parseRecorded .trusted source).1 earlier other) →
        parseRecorded limits source =
          ((parseRecorded .trusted source).1.take index, .error fault)) ∧
      ((∀ index fault, ¬ Breach limits source (parseRecorded .trusted source).1 index fault) →
        parseRecorded limits source = parseRecorded .trusted source)) := by
  refine ⟨fun ceiling hceiling hover => ?characters, fun hchars => ⟨?breach, ?clear⟩⟩
  case characters =>
    rw [parseRecorded_eq, hceiling]
    simp [Option.filter, hover]
  case breach =>
    intro index fault hbreach hleast
    rw [parseRecorded_of_chars hchars, firstBreach?_of_breach hbreach hleast]
  case clear =>
    intro hclear
    rw [parseRecorded_of_chars hchars, firstBreach?_of_clear hclear]

end Document

end GuardedQuery
