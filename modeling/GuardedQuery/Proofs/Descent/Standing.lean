import GuardedQuery.Proofs.Descent.Building
import GuardedQuery.Proofs.Parse.Observation
import GuardedQuery.Proofs.Run.Protocol

/-! # Where a descent stands

A descent shows its observer the events of the trace, one after the other.  It stands where
the trace has certain events yet to come; each operation takes one of them off, or is where
the parse of the text fails as well.

- `Parser.Returns`: a computation ends in a value, or in the fault of the parse.
- `Parser.At`: what is left of the tokens and of the trace, which rules are open, and how much
  fuel there is at least.
- `At.current`, `At.ifAt`, `At.bump`, `At.startNode`, `At.finishNode`, `At.unexpected`: what
  each operation comes to there.
-/

namespace GuardedQuery

namespace Parser

variable {σ α β : Type} {p q : State σ}

/-! ## Computations that return -/

def report (parser : Parser σ) : ParseReport σ :=
  parseText parser.policy parser.observer parser.start parser.source

def Faults (parser : Parser σ) (fault : Fault) (p : State σ) : Prop :=
  parser.report.state = p.observing ∧ parser.report.result = .error fault

/-- The computation ends without a defect: it gives a value, or it fails as the parse of the
text does. -/
def Returns (parser : Parser σ) (x : Parsing σ α) (p : State σ)
    (post : α → State σ → Prop) : Prop :=
  (∃ v q, Gives x p v q ∧ post v q) ∨
    ∃ fault q, x p = some (.ok (.error fault, q)) ∧ parser.Faults fault q

variable {parser : Parser σ} {x : Parsing σ α} {f : α → Parsing σ β}
  {post : β → State σ → Prop} {mid : α → State σ → Prop}

theorem Gives.returns {v : α} (h : Gives x p v q) (hpost : mid v q) : parser.Returns x p mid :=
  .inl ⟨v, q, h, hpost⟩

theorem Gives.returns_bind {v : α} (h : Gives x p v q) (hnext : parser.Returns (f v) q post) :
    parser.Returns (x >>= f) p post := by
  rcases hnext with ⟨w, r, hw, hpost⟩ | ⟨fault, r, hfault, hfaults⟩
  · exact .inl ⟨w, r, h.bind hw, hpost⟩
  · exact .inr ⟨fault, r, h.run_bind.trans hfault, hfaults⟩

theorem Returns.bind (h : parser.Returns x p mid)
    (hnext : ∀ v q, mid v q → parser.Returns (f v) q post) : parser.Returns (x >>= f) p post := by
  rcases h with ⟨v, q, hv, hmid⟩ | ⟨fault, q, hfault, hfaults⟩
  · exact hv.returns_bind (hnext v q hmid)
  · refine .inr ⟨fault, q, ?_, hfaults⟩
    simp only [Bind.bind, ExceptT.bind, ExceptT.mk, StateT.bind, ExceptT.bindCont, hfault,
      Option.bind]
    rfl

theorem Returns.mono {other : α → State σ → Prop} (h : parser.Returns x p mid)
    (hpost : ∀ v q, mid v q → other v q) : parser.Returns x p other := by
  rcases h with ⟨v, q, hv, hmid⟩ | hfault
  · exact .inl ⟨v, q, hv, hpost v q hmid⟩
  · exact .inr hfault

theorem returns_throw {fault : Fault} (h : parser.Faults fault p) :
    parser.Returns (throw fault : Parsing σ α) p mid :=
  .inr ⟨fault, p, rfl, h⟩

/-! ## Events shown -/

def trace (parser : Parser σ) : Trace := textTrace parser.source

def Shows (parser : Parser σ) (done : List Event) (p : State σ) : Prop :=
  Progress.report parser.observer { state := parser.start } done =
    (⟨p.observing, done.reverse⟩, none)

theorem report_eq (parser : Parser σ) :
    parser.report =
      match Progress.report parser.observer { state := parser.start } parser.trace.events with
      | (progress, some fault) =>
        { state := progress.state, ending := .vetoed fault, result := .error fault }
      | (progress, none) =>
        { state := progress.state, ending := parser.trace.ending,
          result := parser.trace.result parser.policy parser.source } :=
  parseText_eq ..

/-- The next event of the trace is shown: it is admitted, or its veto ends the parse. -/
theorem Shows.notify {done : List Event} {event : Event} {later : Trace}
    (h : parser.Shows done p) (htrace : parser.trace = later.after (done ++ [event])) :
    parser.Returns (parser.notify event) p fun _ q =>
      ∃ observing, q = p.seen observing ∧ parser.Shows (done ++ [event]) q := by
  have hshown : parser.Shows done p := h
  rw [Shows] at hshown
  rcases hseen : parser.observer p.observing event with ⟨observing, _ | fault⟩
  · have hgives : Gives (parser.notify event) p () (p.seen observing) := by
      refine gives_get.bind ?_
      rw [hseen]
      exact gives_set.bind (gives_pure ())
    refine hgives.returns ⟨observing, rfl, ?_⟩
    rw [Shows, Progress.report_append, hshown]
    simp [Progress.report, hseen, State.seen]
  · have hfails : parser.notify event p = some (.ok (.error fault, p.seen observing)) := by
      refine gives_get.run_bind.trans ?_
      rw [hseen]
      exact gives_set.run_bind
    have hevents : parser.trace.events = done ++ event :: later.events := by
      rw [htrace, Trace.events_after, List.append_assoc, List.singleton_append]
    refine .inr ⟨fault, _, hfails, ?_⟩
    have hreport : Progress.report parser.observer { state := parser.start } parser.trace.events =
        (⟨observing, done.reverse⟩, some fault) := by
      rw [hevents, Progress.report_append, hshown]
      simp [Progress.report, hseen]
    rw [Faults, report_eq, hreport]
    exact ⟨rfl, rfl⟩

/-- The trace ends here, and not in a document. -/
theorem Shows.faults {done : List Event} (h : parser.Shows done p)
    (hevents : parser.trace.events = done) {fault : Fault}
    (hresult : parser.trace.result parser.policy parser.source = .error fault) :
    parser.Faults fault p := by
  rw [Shows, ← hevents] at h
  rw [Faults, report_eq, h]
  exact ⟨rfl, hresult⟩

/-! ## Places in the trace -/

def assembly (parser : Parser σ) (done : List Event) : Assembly :=
  done.foldl Assembly.follow { unplaced := parser.tokens }

theorem assembly_concat (parser : Parser σ) (done : List Event) (event : Event) :
    parser.assembly (done ++ [event]) = (parser.assembly done).follow event := by
  rw [assembly, List.foldl_append]
  rfl

def place (parser : Parser σ) (left : List Token) : Place :=
  .before parser.source.utf8ByteSize left

/-- Where a descent stands: some rules are open, some tokens are left, some of the trace is
yet to come, and so many looks ahead are still paid for. -/
structure At (parser : Parser σ) (fuel : Nat) (rules : List NodeKind) (left : List Token)
    (later : Trace) (p : State σ) : Prop where
  fuel : fuel ≤ p.fuel
  rules : p.rules = rules
  left : significant p.unread = left
  history : ∃ done, parser.Shows done p ∧ parser.Builds (parser.assembly done) p ∧
    parser.trace = later.after done

def rejection (parser : Parser σ) (left : List Token) (message : String) : Trace :=
  ⟨[.anomaly ((parser.place left).anomaly message)],
    .anomaly ((parser.place left).anomaly message)⟩

def ahead : List Token → SyntaxKind
  | [] => .endOfInput
  | token :: _ => .token token.kind

theorem ahead_eq_token {left : List Token} {kind : TokenKind} :
    ahead left = .token kind ↔ ∃ token rest, left = token :: rest ∧ token.kind = kind := by
  cases left with
  | nil => simp [ahead]
  | cons token rest => simp [ahead]

/-! ## Looks ahead -/

section look

variable {fuel : Nat} {rules : List NodeKind} {left : List Token} {later : Trace}

theorem gives_current (hfuel : 0 < p.fuel) (hleft : significant p.unread = left) :
    Gives current p (ahead left) p.skipped.burnt := by
  have hburn : Gives burn p.skipped () p.skipped.burnt := gives_burn hfuel
  refine (gives_modify State.skipped).bind <| hburn.bind <| gives_get.bind ?_
  rw [State.burnt]
  cases left with
  | nil =>
    rw [State.skipped_unread_of_nil hleft]
    exact gives_pure _
  | cons token rest =>
    obtain ⟨more, hunread, -, -⟩ := State.skipped_unread_of_cons hleft
    rw [hunread]
    exact gives_pure _

theorem Fits.endOffset_eq (hfits : parser.Fits) :
    parser.endOffset = parser.source.utf8ByteSize := by
  rw [endOffset, UInt32.toNat_ofNat_of_lt' (Nat.lt_succ_of_le hfits)]

theorem gives_currentRange (hfits : parser.Fits) (h : ∀ token ∈ p.unread, token ∈ parser.tokens)
    (hleft : significant p.unread = left) :
    Gives parser.currentRange p (parser.place left).range p.skipped := by
  refine (gives_modify State.skipped).bind <| gives_get.bind ?_
  cases left with
  | nil =>
    rw [State.skipped_unread_of_nil hleft, hfits.endOffset_eq]
    exact gives_pure _
  | cons token rest =>
    obtain ⟨more, hunread, -, -⟩ := State.skipped_unread_of_cons hleft
    have hsubset : p.skipped.unread ⊆ p.unread := (List.dropWhile_sublist _).subset
    rw [hunread] at hsubset ⊢
    dsimp only
    rw [Token.span_eq hfits (h token (hsubset List.mem_cons_self))]
    exact gives_pure _

theorem gives_currentText (hfits : parser.Fits) (h : ∀ token ∈ p.unread, token ∈ parser.tokens)
    (hleft : significant p.unread = left) :
    Gives parser.currentText p (parser.place left).text p.skipped := by
  refine (gives_modify State.skipped).bind <| gives_get.bind ?_
  cases left with
  | nil =>
    rw [State.skipped_unread_of_nil hleft]
    exact gives_pure _
  | cons token rest =>
    obtain ⟨more, hunread, -, -⟩ := State.skipped_unread_of_cons hleft
    have hsubset : p.skipped.unread ⊆ p.unread := (List.dropWhile_sublist _).subset
    rw [hunread] at hsubset ⊢
    exact gives_slice hfits (h token (hsubset List.mem_cons_self))

/-- Range and text of the next token, one look after the other. -/
theorem gives_place (hfits : parser.Fits) (h : ∀ token ∈ p.unread, token ∈ parser.tokens)
    (hleft : significant p.unread = left) :
    Gives parser.currentRange p (parser.place left).range p.skipped ∧
      Gives parser.currentText p.skipped (parser.place left).text p.skipped := by
  have hsubset : ∀ token ∈ p.skipped.unread, token ∈ parser.tokens :=
    fun token member => h token ((List.dropWhile_sublist _).subset member)
  have htext := gives_currentText hfits hsubset (State.significant_skipped.trans hleft)
  rw [State.skipped_skipped] at htext
  exact ⟨gives_currentRange hfits h hleft, htext⟩

namespace At

theorem mono (h : parser.At fuel rules left later p) {less : Nat} (hless : less ≤ fuel) :
    parser.At less rules left later p :=
  ⟨Nat.le_trans hless h.fuel, h.rules, h.left, h.history⟩

theorem skipped (h : parser.At fuel rules left later p) :
    parser.At fuel rules left later p.skipped := by
  obtain ⟨hfuel, hrules, hleft, done, hshows, hbuilds, htrace⟩ := h
  exact ⟨hfuel, hrules, State.significant_skipped.trans hleft, done, hshows, hbuilds.skipped,
    htrace⟩

theorem burnt (h : parser.At (fuel + 1) rules left later p) :
    parser.At fuel rules left later p.burnt := by
  obtain ⟨hfuel, hrules, hleft, done, hshows, hbuilds, htrace⟩ := h
  exact ⟨Nat.le_sub_one_of_lt hfuel, hrules, hleft, done, hshows, hbuilds.burnt, htrace⟩

theorem fuel_pos (h : parser.At (fuel + 1) rules left later p) : 0 < p.fuel :=
  Nat.lt_of_lt_of_le (Nat.succ_pos fuel) h.fuel

/-- A look at the kind of the next token. -/
theorem current (h : parser.At (fuel + 1) rules left later p) {f : SyntaxKind → Parsing σ β}
    (hnext : ∀ q, parser.At fuel rules left later q → parser.Returns (f (ahead left)) q post) :
    parser.Returns (Parser.current >>= f) p post :=
  (gives_current h.fuel_pos h.left).returns_bind (hnext _ h.skipped.burnt)

/-- A look at the text of the next token. -/
theorem currentText (h : parser.At fuel rules left later p) {f : String → Parsing σ β}
    (hnext : ∀ q, parser.At fuel rules left later q →
      parser.Returns (f (parser.place left).text) q post) :
    parser.Returns (parser.currentText >>= f) p post := by
  obtain ⟨done, hshows, hbuilds, htrace⟩ := h.history
  exact (gives_currentText hbuilds.fits (fun _ => hbuilds.unread_subset) h.left).returns_bind
    (hnext _ h.skipped)

/-- A choice by the kind of the next token. -/
theorem ifAt (h : parser.At (fuel + 1) rules left later p) {kind : TokenKind} {x y : Parsing σ β}
    (hthen : ∀ q token rest, left = token :: rest → token.kind = kind →
      parser.At fuel rules left later q → parser.Returns x q post)
    (helse : ∀ q, (∀ token ∈ left.head?, token.kind ≠ kind) →
      parser.At fuel rules left later q → parser.Returns y q post) :
    parser.Returns (do if ← isAt kind then x else y) p post := by
  have hgives : Gives (isAt kind) p (decide (ahead left = .token kind))
      p.skipped.burnt :=
    (gives_current h.fuel_pos h.left).bind (gives_pure _)
  refine hgives.returns_bind ?_
  cases left with
  | nil => exact helse _ (by simp) h.skipped.burnt
  | cons token rest =>
    by_cases hkind : token.kind = kind
    · rw [if_pos (by simp [ahead, hkind])]
      exact hthen _ token rest rfl hkind h.skipped.burnt
    · rw [if_neg (by simp [ahead, hkind])]
      exact helse _ (by simpa using hkind) h.skipped.burnt

theorem gives_isAtWord (h : parser.At (fuel + 1) rules left later p) (word : String) :
    ∃ q, Gives (parser.isAtWord word) p (left.head?.any (·.isWord word)) q ∧
      parser.At fuel rules left later q := by
  have hgives : Gives (isAt .name) p (decide (ahead left = .token .name)) p.skipped.burnt :=
    (gives_current h.fuel_pos h.left).bind (gives_pure _)
  have hburnt := h.skipped.burnt
  obtain ⟨done, hshows, hbuilds, htrace⟩ := hburnt.history
  by_cases hname : ahead left = .token .name
  · obtain ⟨token, rest, rfl, hkind⟩ := ahead_eq_token.1 hname
    have hword : (token :: rest).head?.any (·.isWord word) = decide (token.text = word) := by
      simp [Token.isWord, hkind, beq_eq_decide]
    refine ⟨_, hgives.bind ?_, hburnt.skipped⟩
    rw [hword, if_pos (by simpa using hname)]
    exact (gives_currentText hbuilds.fits (fun _ => hbuilds.unread_subset) hburnt.left).bind
      (gives_pure _)
  · have hword : left.head?.any (·.isWord word) = false := by
      cases left with
      | nil => rfl
      | cons token rest =>
        have hkind : token.kind ≠ .name := fun hkind => hname (by rw [ahead, hkind])
        simp [Token.isWord, hkind]
    refine ⟨_, hgives.bind ?_, hburnt⟩
    rw [hword, if_neg (by simpa using hname)]
    exact gives_pure _

theorem assertCurrent {token : Token} {rest : List Token} {kind : TokenKind}
    (h : parser.At (fuel + 1) rules (token :: rest) later p) (hkind : token.kind = kind) :
    parser.Returns (assertCurrent kind) p fun _ q =>
      parser.At fuel rules (token :: rest) later q := by
  refine h.ifAt ?_ ?_
  · intro q _ _ _ _ hq
    exact (gives_pure ()).returns hq
  · intro q hother _
    exact (hother token rfl hkind).elim

/-- A choice by whether the next token is a certain name. -/
theorem ifAtWord (h : parser.At (fuel + 1) rules left later p) {word : String} {x y : Parsing σ β}
    (hthen : ∀ q token rest, left = token :: rest → token.isWord word = true →
      parser.At fuel rules left later q → parser.Returns x q post)
    (helse : ∀ q, (∀ token ∈ left.head?, token.isWord word = false) →
      parser.At fuel rules left later q → parser.Returns y q post) :
    parser.Returns (do if ← parser.isAtWord word then x else y) p post := by
  obtain ⟨q, hgives, hq⟩ := h.gives_isAtWord word
  refine hgives.returns_bind ?_
  cases left with
  | nil => exact helse _ (by simp) hq
  | cons token rest =>
    cases hword : token.isWord word with
    | true =>
      rw [if_pos (by simpa using hword)]
      exact hthen _ token rest rfl hword hq
    | false =>
      rw [if_neg (by simp [hword])]
      exact helse _ (by simpa using hword) hq

/-- A look at a token further on. -/
theorem peekNth (h : parser.At (fuel + 1) rules left later p) (n : Nat)
    {f : SyntaxKind × String → Parsing σ β}
    (hnext : ∀ q, parser.At fuel rules left later q →
      parser.Returns (f (ahead (left.drop n), (parser.place (left.drop n)).text)) q post) :
    parser.Returns (parser.peekNth n >>= f) p post := by
  have hburnt := h.skipped.burnt
  have hburn : Gives burn p.skipped () p.skipped.burnt := gives_burn h.fuel_pos
  have hgives : Gives (parser.peekNth n) p
      (ahead (left.drop n), (parser.place (left.drop n)).text) p.skipped.burnt := by
    refine (gives_modify State.skipped).bind <| hburn.bind <| gives_get.bind ?_
    rw [hburnt.left, ← List.head?_drop]
    cases hdrop : left.drop n with
    | nil => exact gives_pure _
    | cons token rest =>
      have member : token ∈ left := List.mem_of_mem_drop (hdrop ▸ List.mem_cons_self)
      rw [← hburnt.left] at member
      obtain ⟨done, hshows, hbuilds, htrace⟩ := hburnt.history
      have htoken := hbuilds.unread_subset (List.mem_of_mem_filter member)
      exact (gives_slice hbuilds.fits htoken).bind (gives_pure _)
  exact hgives.returns_bind (hnext _ hburnt)

end At

end look

/-! ## Steps -/

section step

variable {fuel : Nat} {rules : List NodeKind} {left rest : List Token} {later : Trace}
  {events : List Event} {token : Token} {rule : NodeKind}

namespace At

theorem startNode (hrule : rule ≠ .document)
    (h : parser.At fuel rules left (later.after ((parser.place left).enter rule :: events)) p) :
    parser.Returns (parser.startNode rule) p fun _ q =>
      parser.At 256 (rule :: rules) left (later.after events) q := by
  obtain ⟨hfuel, hrules, hleft, done, hshows, hbuilds, htrace⟩ := h
  rw [Trace.after_after, List.append_cons, ← Trace.after_after] at htrace
  have hskipped : significant p.skipped.unread = left := State.significant_skipped.trans hleft
  obtain ⟨hrange, htext⟩ := gives_place hbuilds.fits (fun _ => hbuilds.unread_subset) hleft
  have hshown : parser.Shows done p.skipped := hshows
  refine hrange.returns_bind <| htext.returns_bind <| (hshown.notify htrace).bind ?_
  rintro _ _ ⟨observing, rfl, hseen⟩
  have hready := (hbuilds.skipped.seen observing).refueled
  have hdrained := hready.drained p.clean_skipped
  refine ((gives_modify State.refueled).bind <| hready.gives_drainInside.bind <|
    gives_modify (State.opened · rule)).returns ?_
  refine ⟨Nat.le_refl 256, congrArg (rule :: ·) hrules, hskipped, done ++ [_], hseen, ?_, htrace⟩
  rw [assembly_concat, Place.enter, Assembly.follow_enter hrule]
  exact hdrained.opened rule

theorem finishNode (hrule : rule ≠ .document)
    (h : parser.At fuel (rule :: rules) left (later.after [.exit rule]) p) :
    parser.Returns parser.finishNode p fun _ q => parser.At fuel rules left later q := by
  obtain ⟨hfuel, hrules, hleft, done, hshows, hbuilds, htrace⟩ := h
  rw [Trace.after_after] at htrace
  obtain ⟨builder, hclose, hclosed⟩ := hbuilds.closed hrule hrules
  have hshown : parser.Shows done { p with builder, rules } := hshows
  refine gives_get.returns_bind ?_
  rw [hrules, hclose]
  refine gives_set.returns_bind ((hshown.notify htrace).mono ?_)
  rintro _ _ ⟨observing, rfl, hseen⟩
  refine ⟨hfuel, rfl, hleft, done ++ [_], hseen, ?_, htrace⟩
  rw [assembly_concat, Assembly.follow_exit hrule]
  exact hclosed.seen observing

theorem bump (h : parser.At fuel rules (token :: rest) (later.after [token.terminal]) p) :
    parser.Returns parser.bump p fun _ q => parser.At 256 rules rest later q := by
  obtain ⟨hfuel, hrules, hleft, done, hshows, hbuilds, htrace⟩ := h
  rw [Trace.after_after] at htrace
  obtain ⟨more, hunread, hmore, htoken⟩ := State.skipped_unread_of_cons hleft
  have hmember := hbuilds.skipped.unread_subset (hunread ▸ List.mem_cons_self)
  have hshown : parser.Shows done p.skipped := hshows
  refine (gives_modify State.skipped).returns_bind <| gives_get.returns_bind ?_
  rw [hunread]
  refine (gives_slice hbuilds.fits hmember).returns_bind ?_
  rw [Token.token_span hbuilds.fits hmember, Token.span_eq hbuilds.fits hmember]
  refine (hshown.notify htrace).bind ?_
  rintro _ _ ⟨observing, rfl, hseen⟩
  have hready := (hbuilds.skipped.seen observing).refueled
  have hdrained := hready.drained p.clean_skipped
  refine ((gives_modify State.refueled).bind <| hready.gives_drainTrivia.bind <|
    gives_modify (State.took · token more)).returns ?_
  refine ⟨Nat.le_refl 256, hrules, hmore, done ++ [_], hseen, ?_, htrace⟩
  rw [assembly_concat]
  exact hdrained.took rfl htoken hunread

theorem unexpected {message : String}
    (h : parser.At fuel rules left (parser.rejection left message) p)
    {post : α → State σ → Prop} :
    parser.Returns (parser.unexpected message) p post := by
  obtain ⟨hfuel, hrules, hleft, done, hshows, hbuilds, htrace⟩ := h
  obtain ⟨hrange, htext⟩ := gives_place hbuilds.fits (fun _ => hbuilds.unread_subset) hleft
  have hshown : parser.Shows done p.skipped := hshows
  have hlast : parser.trace =
      Trace.after (done ++ [.anomaly ((parser.place left).anomaly message)])
        ⟨[], .anomaly ((parser.place left).anomaly message)⟩ := by
    rw [htrace, ← Trace.after_after]
    rfl
  refine hrange.returns_bind <| htext.returns_bind <| (hshown.notify hlast).bind ?_
  rintro _ _ ⟨observing, rfl, hseen⟩
  refine returns_throw (hseen.faults ?_ ?_)
  · rw [hlast, Trace.events_after, List.append_nil]
  · rw [hlast]
    rfl

/-! ## Tokens that must be there -/

theorem expect_take {kind : TokenKind} {what : String}
    (h : parser.At (fuel + 1) rules (token :: rest) (later.after [token.terminal]) p)
    (hkind : token.kind = kind) :
    parser.Returns (parser.expect kind what) p fun _ q => parser.At 256 rules rest later q := by
  refine h.ifAt ?_ ?_
  · intro q _ _ _ _ hq
    exact hq.bump
  · intro q hother _
    exact (hother token rfl hkind).elim

theorem expect_reject {kind : TokenKind} {what : String}
    (h : parser.At (fuel + 1) rules left (parser.rejection left ("expected " ++ what)) p)
    (hkind : ∀ token ∈ left.head?, token.kind ≠ kind) {post : Unit → State σ → Prop} :
    parser.Returns (parser.expect kind what) p post := by
  refine h.ifAt ?_ ?_
  · rintro q token rest rfl hsame _
    exact (hkind token rfl hsame).elim
  · intro q _ hq
    exact hq.unexpected

theorem expectWord_take {word : String}
    (h : parser.At (fuel + 1) rules (token :: rest) (later.after [token.terminal]) p)
    (hword : token.isWord word = true) :
    parser.Returns (parser.expectWord word) p fun _ q => parser.At 256 rules rest later q := by
  refine h.ifAtWord ?_ ?_
  · intro q _ _ _ _ hq
    exact hq.bump
  · intro q hother _
    cases hword.symm.trans (hother token rfl)

theorem expectWord_reject {word : String}
    (h : parser.At (fuel + 1) rules left (parser.rejection left ("expected '" ++ word ++ "'")) p)
    (hword : ∀ token ∈ left.head?, token.isWord word = false) {post : Unit → State σ → Prop} :
    parser.Returns (parser.expectWord word) p post := by
  refine h.ifAtWord ?_ ?_
  · rintro q token rest rfl hsame _
    cases hsame.symm.trans (hword token rfl)
  · intro q _ hq
    exact hq.unexpected

end At

end step

end Parser

end GuardedQuery
