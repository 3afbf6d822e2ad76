import GuardedQuery.Proofs.Parse.Ceilings
import GuardedQuery.Proofs.Run.Protocol

/-! # The protocol of a parse

What a listener may rely on, whatever a parse comes to.  A ceiling cuts the events of a run
short, but never before the document is entered and never behind its end.

- `Protocol`: the order of the events, and what each of them carries.
- `Follows.protocol`: events that follow each other inside a document keep to it.
- `Document.recorded_protocol`: so do the events of every parse, and how they end tells how
  the parse ends.
-/

namespace GuardedQuery

/-- The order of the events of a parse over some significant tokens of an input of `size`
bytes. -/
structure Protocol (size : Nat) (tokens : List Token) (events : List Event) : Prop where
  /-- A rule that is left is the last one entered that was not left yet. -/
  exits : ∀ before rule after, events = before ++ .exit rule :: after →
    (openStack before).head? = some rule
  terminals : terminalCount events ≤ tokens.length ∧
    events.filter Event.isTerminal = (tokens.take (terminalCount events)).map Token.terminal
  enters : ∀ before rule range text after, events = before ++ .enter rule range text :: after →
    .enter rule range text = (Place.before size (tokens.drop (terminalCount before))).enter rule
  /-- An anomaly is the last event, at the next token or at the end of the input. -/
  anomalies : ∀ before anomaly after, events = before ++ .anomaly anomaly :: after →
    after = [] ∧ ∃ message,
      anomaly = (Place.before size (tokens.drop (terminalCount before))).anomaly message

def FailsWith {α : Type} (result : Except Fault α) (kind : FaultKind) : Prop :=
  ∃ fault, result = .error fault ∧ fault.kind = kind

namespace Follows

variable {size : Nat} {rules last : List NodeKind} {tokens rest : List Token}
  {events before after : List Event} {event : Event}

/-- What holds in front of an event. -/
theorem at_event (h : Follows size rules tokens (before ++ event :: after) last rest) :
    Follows size (before.foldl Event.nest rules) (tokens.drop (terminalCount before))
      (event :: after) last rest := by
  obtain ⟨between, left, hfront, hback⟩ := h.of_append
  rw [hfront.foldl_nest, hfront.drop_eq.2]
  exact hback

theorem head?_of_exit {rule : NodeKind}
    (h : Follows size rules tokens (.exit rule :: after) last rest) : rules.head? = some rule := by
  cases h with
  | exit _ => rfl

theorem eq_of_enter {rule : NodeKind} {range : ByteRange} {text : String}
    (h : Follows size rules tokens (.enter rule range text :: after) last rest) :
    .enter rule range text = (Place.before size tokens).enter rule := by
  cases h with
  | enter _ _ => rfl

theorem nil_of_anomaly {anomaly : Anomaly}
    (h : Follows size rules tokens (.anomaly anomaly :: after) last rest) :
    after = [] ∧ ∃ message, anomaly = (Place.before size tokens).anomaly message := by
  cases h with
  | anomaly _ => exact ⟨rfl, _, rfl⟩

/-- In front of an event there is no anomaly. -/
theorem not_mem_anomaly {anomaly : Anomaly}
    (h : Follows size rules tokens (before ++ event :: after) last rest) :
    .anomaly anomaly ∉ before := by
  intro member
  obtain ⟨front, back, rfl⟩ := List.append_of_mem member
  rw [List.append_assoc, List.cons_append] at h
  obtain ⟨hnil, -⟩ := h.at_event.nil_of_anomaly
  simp at hnil

/-- Events inside a document, behind the one that enters it, keep to the protocol. -/
theorem protocol (h : Follows size [.document] tokens events last rest) :
    Protocol size tokens ((Place.before size tokens).enter .document :: events) := by
  constructor
  case exits =>
    intro before rule after heq
    cases before with
    | nil => cases heq
    | cons _ before =>
      cases heq
      exact h.at_event.head?_of_exit
  case terminals =>
    obtain ⟨front, rfl, hfront⟩ := h.taken
    have hcount : terminalCount events = front.length := by
      rw [terminalCount, List.countP_eq_length_filter, hfront, List.length_map]
    have hdocument : terminalCount ((Place.before size (front ++ rest)).enter .document :: events) =
        front.length := hcount
    rw [hdocument, List.take_left]
    exact ⟨by simp, hfront⟩
  case enters =>
    intro before rule range text after heq
    cases before with
    | nil =>
      cases heq
      rfl
    | cons _ before =>
      cases heq
      exact h.at_event.eq_of_enter
  case anomalies =>
    intro before anomaly after heq
    cases before with
    | nil => cases heq
    | cons _ before =>
      cases heq
      exact h.at_event.nil_of_anomaly

end Follows

/-! ## Ceilings -/

variable {limits : Limits} {source : Source}

theorem Limits.ceiling?_pos {value : Int32} {ceiling : UInt32}
    (h : limits.ceiling? value = some ceiling) : 0 < ceiling.toNat := by
  simp only [ceiling?, Option.ite_none_left_eq_some, Option.some.injEq] at h
  obtain ⟨hpositive, rfl⟩ := h
  rw [not_or, Int32.not_le] at hpositive
  rw [Int32.toNat_toUInt32_of_le (Int32.le_of_lt hpositive.2)]
  exact (Int32.toNatClampNeg_pos_iff value).2 hpositive.2

/-- Every ceiling admits the start of the document. -/
theorem breach?_start (rule : NodeKind) (range : ByteRange) (text : String) :
    breach? limits source [] (.enter rule range text) = none := by
  simp only [breach?, openRules_nil, Option.map_eq_none_iff, Option.filter_eq_none_iff]
  intro ceiling hceiling
  have := Limits.ceiling?_pos hceiling
  simp
  omega

theorem kind_of_breach? {seen : List Event} {event : Event} {fault : Fault}
    (h : breach? limits source seen event = some fault) :
    fault.kind = .ruleDepthExceeded ∨ fault.kind = .tokenCountExceeded := by
  cases event with
  | enter _ _ _ =>
    obtain ⟨ceiling, -, rfl⟩ := Option.map_eq_some_iff.1 h
    exact .inl rfl
  | terminal _ _ _ =>
    obtain ⟨ceiling, -, rfl⟩ := Option.map_eq_some_iff.1 h
    exact .inr rfl
  | exit _ | anomaly _ => cases h

/-- What stands behind the events in front of the first that is one too many. -/
theorem of_firstBreach? {seen later before : List Event} {fault : Fault}
    (h : firstBreach? limits source seen later = some (before, fault)) :
    ∃ front event back, later = front ++ event :: back ∧ before = seen ++ front ∧
      breach? limits source before event = some fault := by
  induction later generalizing seen with
  | nil => cases h
  | cons event later ih =>
    rw [firstBreach?] at h
    cases hbreach : breach? limits source seen event with
    | some other =>
      rw [hbreach] at h
      cases h
      exact ⟨[], event, later, rfl, (List.append_nil _).symm, hbreach⟩
    | none =>
      rw [hbreach] at h
      obtain ⟨front, next, back, rfl, rfl, hnext⟩ := ih h
      exact ⟨event :: front, next, back, rfl, by simp, hnext⟩

/-! ## Parses -/

/-- The events of a parse keep to the protocol, and how they end tells how the parse ends. -/
structure Concludes {α : Type} (size : Nat) (tokens : List Token) (events : List Event)
    (result : Except Fault α) : Prop where
  protocol : Protocol size tokens events
  anomaly_iff : (∃ anomaly, .anomaly anomaly ∈ events) ↔ FailsWith result .syntaxError
  settled_iff : openStack events = [] ↔ result.isOk ∨ FailsWith result .trailingInput
  settled : openStack events = [] →
    (∃ range text, events.head? = some (.enter .document range text)) ∧
      events.getLast? = some (.exit .document)
  complete : result.isOk → terminalCount events = tokens.length
  trailing : FailsWith result .trailingInput →
    0 < terminalCount events ∧ terminalCount events < tokens.length

theorem failsWith_error {α : Type} {fault : Fault} {kind : FaultKind} :
    FailsWith (.error fault : Except Fault α) kind ↔ fault.kind = kind := by
  constructor
  · rintro ⟨other, h, hkind⟩
    cases h
    exact hkind
  · exact fun h => ⟨fault, rfl, h⟩

theorem not_failsWith_ok {α : Type} {value : α} {kind : FaultKind} :
    ¬ FailsWith (.ok value : Except Fault α) kind := by
  rintro ⟨_, h, -⟩
  cases h

section concludes

variable {α : Type} {size : Nat} {tokens rest : List Token} {rules : List NodeKind}
  {events : List Event} {trace : Trace}

/-- The document is left, so the parse got to its end. -/
theorem Follows.concludes_settled {result : Except Fault α}
    (h : Follows size [.document] tokens events [] rest)
    (hclean : ¬ FailsWith result .syntaxError)
    (hresult : result.isOk ∨ FailsWith result .trailingInput)
    (hcomplete : result.isOk → rest = [])
    (htrailing : FailsWith result .trailingInput → rest ≠ [] ∧ rest.length < tokens.length) :
    Concludes size tokens ((Place.before size tokens).enter .document :: events) result := by
  obtain ⟨hcount, hdrop⟩ := h.drop_eq
  have hlength : rest.length = tokens.length - terminalCount events := by
    rw [← hdrop, List.length_drop]
  have hdocument : terminalCount ((Place.before size tokens).enter .document :: events) =
      terminalCount events := rfl
  constructor
  case protocol => exact h.protocol
  case anomaly_iff =>
    refine iff_of_false ?_ hclean
    rintro ⟨anomaly, member⟩
    cases member with
    | tail _ member => exact h.ne_nil_of_anomaly member rfl
  case settled_iff => exact iff_of_true h.foldl_nest hresult
  case settled =>
    intro _
    refine ⟨⟨_, _, rfl⟩, ?_⟩
    rw [List.getLast?_cons, h.getLast?_eq rfl (List.nil_append _).symm, Option.getD_some]
  case complete =>
    intro hok
    have hnone := congrArg List.length (hcomplete hok)
    rw [List.length_nil] at hnone
    omega
  case trailing =>
    intro hfails
    obtain ⟨hsome, htaken⟩ := htrailing hfails
    have hpos := List.length_pos_iff.2 hsome
    omega

/-- Some rule is open, so the parse ended inside the document. -/
theorem Follows.concludes_open {fault : Fault}
    (h : Follows size [.document] tokens events rules rest) (hopen : rules ≠ [])
    (hkind : fault.kind ≠ .trailingInput)
    (hanomaly : (∃ anomaly, .anomaly anomaly ∈ events) ↔ fault.kind = .syntaxError) :
    Concludes size tokens ((Place.before size tokens).enter .document :: events)
      (.error fault : Except Fault α) := by
  have hstack : openStack ((Place.before size tokens).enter .document :: events) = rules :=
    h.foldl_nest
  have hfails : ¬ FailsWith (.error fault : Except Fault α) .trailingInput := by
    rwa [failsWith_error]
  constructor
  case protocol => exact h.protocol
  case anomaly_iff =>
    rw [failsWith_error, ← hanomaly]
    refine exists_congr fun anomaly => ?_
    rw [List.mem_cons, or_iff_right]
    exact fun heq => by cases heq
  case settled_iff =>
    rw [hstack]
    exact iff_of_false hopen fun hresult => hresult.elim (fun hok => by cases hok) hfails
  case settled =>
    intro hnil
    exact (hopen (hstack.symm.trans hnil)).elim
  case complete =>
    intro hok
    cases hok
  case trailing =>
    intro htrailing
    exact (hfails htrailing).elim

/-- A run that nobody cuts short. -/
theorem Conducted.concludes (h : Conducted size tokens trace) (source : Source) (text : String) :
    Concludes size tokens trace.events (trace.result (.located source) text) := by
  cases h with
  | complete h =>
    exact h.concludes_settled not_failsWith_ok (.inl rfl) (fun _ => rfl)
      fun hfails => (not_failsWith_ok hfails).elim
  | trailing h hrest htaken =>
    refine h.concludes_settled ?_ (.inr ⟨_, rfl, rfl⟩) ?_ fun _ => ⟨hrest, htaken⟩
    · rintro ⟨fault, hfault, hkind⟩
      cases hfault
      cases hkind
    · intro hok
      cases hok
  | @anomaly events rules rest anomaly h =>
    have member : .anomaly anomaly ∈ events ++ [.anomaly anomaly] :=
      List.mem_append_right _ List.mem_cons_self
    refine h.concludes_open (h.ne_nil_of_anomaly member) ?_ (iff_of_true ⟨anomaly, member⟩ rfl)
    intro hkind
    cases hkind

/-- A run does not count characters. -/
theorem Conducted.not_characterLimit (h : Conducted size tokens trace) (source : Source)
    (text : String) :
    ¬ FailsWith (trace.result (.located source) text) .characterLimitExceeded := by
  rintro ⟨fault, hfault, hkind⟩
  cases h with
  | complete _ => cases hfault
  | trailing _ _ _ | anomaly _ =>
    cases hfault
    cases hkind

/-- All runs enter the document and go on from there. -/
theorem Conducted.exists_follows (h : Conducted size tokens trace) :
    ∃ events rules rest, trace.events = (Place.before size tokens).enter .document :: events ∧
      Follows size [.document] tokens events rules rest := by
  cases h with
  | complete h | trailing h _ _ | anomaly h => exact ⟨_, _, _, rfl, h⟩

/-- A run that a ceiling cuts short. -/
theorem Conducted.concludes_of_breach (h : Conducted size tokens trace) {before : List Event}
    {fault : Fault} (hbreach : firstBreach? limits source [] trace.events = some (before, fault)) :
    Concludes size tokens before (.error fault : Except Fault α) := by
  obtain ⟨events, rules, rest, htrace, hfollows⟩ := h.exists_follows
  obtain ⟨front, event, back, hevents, rfl, hevent⟩ := of_firstBreach? hbreach
  rw [htrace] at hevents
  cases before with
  | nil =>
    cases hevents
    rw [Place.enter, breach?_start] at hevent
    cases hevent
  | cons first before =>
    cases hevents
    obtain ⟨between, left, hfront, hback⟩ := hfollows.of_append
    have hkind := kind_of_breach? hevent
    refine hfront.concludes_open hback.ne_nil ?_ (iff_of_false ?_ ?_)
    · rcases hkind with hkind | hkind <;> rw [hkind] <;> decide
    · rintro ⟨anomaly, member⟩
      exact hfollows.not_mem_anomaly member
    · rcases hkind with hkind | hkind <;> rw [hkind] <;> decide

end concludes

theorem FailsWith.map {α β : Type} {result : Except Fault α} {kind : FaultKind} (f : α → β) :
    FailsWith (result.map f) kind ↔ FailsWith result kind := by
  cases result with
  | ok value => exact iff_of_false not_failsWith_ok not_failsWith_ok
  | error fault => exact failsWith_error.trans failsWith_error.symm

theorem isOk_map {α β : Type} (result : Except Fault α) (f : α → β) :
    (result.map f).isOk = result.isOk := by
  cases result <;> rfl

namespace Document

/-- Without ceilings the events of a parse are those of the whole run. -/
theorem concludes_trusted (source : Source) :
    Concludes source.text.utf8ByteSize (significant (lex source.text))
        (parseRecorded .trusted source).1 (parseRecorded .trusted source).2 ∧
      ¬ FailsWith (parseRecorded .trusted source).2 .characterLimitExceeded := by
  have hconducted := traceGoals_conducted source.text.utf8ByteSize (significant (lex source.text))
  rw [parseRecorded_trusted, FailsWith.map]
  refine ⟨?_, hconducted.not_characterLimit source source.text⟩
  obtain ⟨hprotocol, hanomaly, hsettled, hends, hcomplete, htrailing⟩ :=
    hconducted.concludes source source.text
  constructor
  case protocol => exact hprotocol
  case anomaly_iff => rwa [FailsWith.map]
  case settled_iff => rwa [FailsWith.map, isOk_map]
  case settled => exact hends
  case complete => rwa [isOk_map]
  case trailing => rwa [FailsWith.map]

end Document

end GuardedQuery
