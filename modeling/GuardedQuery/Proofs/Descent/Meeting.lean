import GuardedQuery.Proofs.Descent.Standing

/-! # Procedures that meet goals

A procedure of the descent does what some goals of the run ask for: it starts where they lie
on top of the stack, and returns where they are gone.  How much fuel it needs, how much it
leaves and whether it takes a token is all that its callers have to know.

- `Parser.AtGoals`: the descent stands where the run has certain goals.
- `Parser.Meets`, `Parser.Takes`: a procedure meets goals; it takes tokens to do so.
- `Meets.bind`: one procedure behind the other.
- `takes_startNode_bump`, `takes_startNode_expect`, `meets_optional`, `takes_loop`: the ways
  procedures are put together.
-/

namespace GuardedQuery

/-! ## Goals inside one another -/

section trace

variable {size : Nat} {token : Token} {left rest : List Token} {goal inner more one : Goal}
  {goals below : List Goal}

/-- A goal that enters a rule around what another goal takes. -/
theorem traceGoals_within {taken : Taken} {rule : NodeKind}
    (htake : goal.take? token rest.head? = some ((taken.andThen goals).within rule))
    (hinner : inner.take? token rest.head? = some taken) :
    traceGoals size (token :: rest) (goal :: below) =
      (traceGoals size (token :: rest) (inner :: (goals ++ below))).after
        [(Place.ofToken token).enter rule] := by
  rw [traceGoals_take htake, traceGoals_take hinner, Trace.after_after, Taken.within, Taken.andThen,
    List.append_assoc]
  rfl

structure Goal.Repeats (close : TokenKind) (one more : Goal) : Prop where
  take : ∀ token next, more.take? token next = closeOr close token more (one.take? token next)
  decline : ∀ next, more.decline next = one.decline next
  reject : ∀ next, ∃ enters message, one.decline next = .reject enters message

/-- In front of anything but the closing token, any number more is one and any number more. -/
theorem Goal.Repeats.traceGoals {close : TokenKind} (h : Goal.Repeats close one more)
    (hclose : ∀ token ∈ left.head?, token.kind ≠ close) :
    traceGoals size left (more :: below) = traceGoals size left (one :: more :: below) := by
  obtain ⟨enters, message, hreject⟩ := h.reject left.head?
  have hboth (hone : ∀ token ∈ left.head?, ∀ next, one.take? token next = none) :
      GuardedQuery.traceGoals size left (more :: below) =
        GuardedQuery.traceGoals size left (one :: more :: below) := by
    rw [traceGoals_reject hreject hone, traceGoals_reject ((h.decline _).trans hreject)]
    intro token member next
    rw [h.take, Goal.closeOr, if_neg (hclose token member), hone token member]
    rfl
  cases left with
  | nil => exact hboth (by simp)
  | cons token rest =>
    cases hone : one.take? token rest.head? with
    | none =>
      refine hboth ?_
      rintro first ⟨⟩ next
      exact Goal.take?_eq_none hone next
    | some taken =>
      have hmore : more.take? token rest.head? = some (taken.andThen [more]) := by
        rw [h.take, Goal.closeOr, if_neg (hclose token rfl), hone]
        rfl
      rw [traceGoals_take hmore, traceGoals_take hone, Taken.andThen, List.append_assoc,
        List.singleton_append]

theorem Goal.Repeats.closes {close : TokenKind} (h : Goal.Repeats close one more) :
    closes (more :: below) = closes (one :: more :: below) := by
  obtain ⟨_, _, hreject⟩ := h.reject none
  exact (closes_cons_of_reject hreject).symm

end trace

namespace Parser

variable {σ : Type} {parser : Parser σ} {p : State σ}

/-! ## Standing at goals -/

abbrev AtGoals (parser : Parser σ) (fuel : Nat) (left : List Token) (goals : List Goal)
    (p : State σ) : Prop :=
  parser.At fuel (closes goals) left (traceGoals parser.source.utf8ByteSize left goals) p

section goals

variable {fuel : Nat} {token : Token} {left rest : List Token} {goal : Goal} {below : List Goal}

theorem AtGoals.take (h : parser.AtGoals fuel (token :: rest) (goal :: below) p) {taken : Taken}
    (htake : goal.take? token rest.head? = some taken) :
    parser.At fuel (closes below) (token :: rest)
      ((traceGoals parser.source.utf8ByteSize rest (taken.goals ++ below)).after
        (token.taking taken.enters)) p := by
  rwa [AtGoals, traceGoals_take htake, closes_cons_of_take htake] at h

theorem AtGoals.skip (h : parser.AtGoals fuel left (goal :: below) p)
    (hskip : ∀ token, goal.decline token = .skip)
    (hnone : ∀ token ∈ left.head?, ∀ next, goal.take? token next = none) :
    parser.AtGoals fuel left below p := by
  rwa [AtGoals, traceGoals_skip hskip hnone, closes_cons_of_skip (hskip none)] at h

theorem AtGoals.reject (h : parser.AtGoals fuel left (goal :: below) p) {enters : List NodeKind}
    {message : String} (hreject : goal.decline left.head? = .reject enters message)
    (hnone : ∀ token ∈ left.head?, ∀ next, goal.take? token next = none) :
    parser.At fuel (closes below) left
      ((parser.rejection left message).after (enters.map (parser.place left).enter)) p := by
  rwa [AtGoals, traceGoals_reject hreject hnone, closes_cons_of_reject hreject] at h

/-- Which goal takes the token does not matter, but only what it takes. -/
theorem AtGoals.of_take_eq (h : parser.AtGoals fuel (token :: rest) (goal :: below) p)
    {other : Goal} {taken : Taken} (htake : goal.take? token rest.head? = some taken)
    (hother : other.take? token rest.head? = some taken) :
    parser.AtGoals fuel (token :: rest) (other :: below) p := by
  rw [AtGoals, traceGoals_take hother, closes_cons_of_take hother]
  exact AtGoals.take h htake

/-- Behind the rule that is entered and the token that is taken, the end of the rule is a goal. -/
theorem atGoals_of_taken {next : Option Token} {rule : NodeKind} {goals : List Goal}
    (hrule : rule ≠ .document) (htake : goal.take? token next = some ⟨[rule], goals⟩)
    (h : parser.At fuel (rule :: closes below) rest
      (traceGoals parser.source.utf8ByteSize rest (goals ++ below)) p) :
    parser.AtGoals fuel rest (goals ++ below) p := by
  have hgoal : goal ≠ .firstDefinition := by
    rintro rfl
    obtain ⟨inner, -, hinner⟩ := Option.map_eq_some_iff.1 htake
    exact hrule (List.cons.inj (congrArg Taken.enters hinner)).1.symm
  rw [AtGoals, closes_append, (Goal.take?_nests hgoal token next _ htake).1]
  exact h

end goals

/-! ## Procedures -/

/-- The procedure starts where goals are on top of the stack, with a certain amount of fuel,
and returns where they are gone, with another amount.  It takes a certain number of tokens at
least. -/
def Passes (parser : Parser σ) (count : Nat) (x : Parsing σ Unit) (goals : List Goal)
    (left : List Token) (entry exit : Nat) : Prop :=
  ∀ below p, parser.AtGoals entry left (goals ++ below) p →
    parser.Returns x p fun _ q =>
      ∃ rest, rest.length + count ≤ left.length ∧ parser.AtGoals exit rest below q

abbrev Meets (parser : Parser σ) := parser.Passes 0

abbrev Takes (parser : Parser σ) := parser.Passes 1

section meets

variable {x y : Parsing σ Unit} {goal one more : Goal} {goals later : List Goal}
  {token : Token} {left rest : List Token} {count entry mid exit : Nat}
  {rule : NodeKind} {kind close : TokenKind} {what : String}

theorem Passes.mono {more less : Nat} (h : parser.Passes count x goals left entry exit)
    (hentry : entry ≤ more) (hexit : less ≤ exit) :
    parser.Passes count x goals left more less := by
  intro below p hp
  refine (h below p (hp.mono hentry)).mono ?_
  rintro _ q ⟨rest, hrest, hq⟩
  exact ⟨rest, hrest, hq.mono hexit⟩

theorem Passes.meets (h : parser.Passes count x goals left entry exit) :
    parser.Meets x goals left entry exit := by
  intro below p hp
  refine (h below p hp).mono ?_
  rintro _ q ⟨rest, hrest, hq⟩
  exact ⟨rest, Nat.le_trans (Nat.le_add_right _ count) hrest, hq⟩

/-- Behind something that returns at goals, a procedure that meets them. -/
theorem Returns.meets {below : List Goal}
    (h : parser.Returns x p fun _ q =>
      ∃ rest, rest.length + count ≤ left.length ∧ parser.AtGoals mid rest (later ++ below) q)
    (hnext : ∀ rest, rest.length + count ≤ left.length → parser.Meets y later rest mid exit) :
    parser.Returns (do x; y) p fun _ q =>
      ∃ rest, rest.length + count ≤ left.length ∧ parser.AtGoals exit rest below q := by
  refine h.bind ?_
  rintro _ q ⟨middle, hmiddle, hq⟩
  refine (hnext middle hmiddle below q hq).mono ?_
  rintro _ r ⟨rest, hrest, hr⟩
  exact ⟨rest, Nat.le_trans (Nat.add_le_add_right hrest count) hmiddle, hr⟩

/-- One procedure behind the other. -/
theorem Passes.bind (h : parser.Passes count x goals left entry mid)
    (hnext : ∀ rest, rest.length + count ≤ left.length → parser.Meets y later rest mid exit) :
    parser.Passes count (do x; y) (goals ++ later) left entry exit := by
  intro below p hp
  rw [List.append_assoc] at hp
  exact (h (later ++ below) p hp).meets hnext

theorem meets_finishNode (hrule : rule ≠ .document) :
    parser.Meets parser.finishNode [.leave rule] left exit exit := by
  intro below p hp
  rw [List.singleton_append, AtGoals, traceGoals_leave] at hp
  refine (hp.finishNode hrule).mono ?_
  intro _ q hq
  exact ⟨left, Nat.le_refl _, hq⟩

theorem takes_bump (htake : goal.take? token rest.head? = some .only) :
    parser.Takes parser.bump [goal] (token :: rest) entry 256 := by
  intro below p hp
  refine (AtGoals.take hp htake).bump.mono ?_
  intro _ q hq
  exact ⟨rest, Nat.lt_succ_self _, hq⟩

/-- Either a token of that kind is next, or there is none. -/
theorem head_kind (left : List Token) (kind : TokenKind) :
    (∃ token rest, left = token :: rest ∧ token.kind = kind) ∨
      ∀ token ∈ left.head?, token.kind ≠ kind := by
  cases left with
  | nil => exact .inr (by simp)
  | cons token rest =>
    by_cases hkind : token.kind = kind
    · exact .inl ⟨token, rest, rfl, hkind⟩
    · exact .inr (by simpa using hkind)

/-- Either that name is next, or it is not. -/
theorem head_word (left : List Token) (word : String) :
    (∃ token rest, left = token :: rest ∧ token.isWord word = true) ∨
      ∀ token ∈ left.head?, token.isWord word = false := by
  cases left with
  | nil => exact .inr (by simp)
  | cons token rest =>
    cases hword : token.isWord word with
    | true => exact .inl ⟨token, rest, rfl, hword⟩
    | false => exact .inr (by simpa using hword)

theorem takes_expect :
    parser.Takes (parser.expect kind what) [.token kind what] left (entry + 1) 256 := by
  intro below p hp
  rcases head_kind left kind with ⟨token, rest, rfl, hkind⟩ | hother
  · have htake : (Goal.token kind what).take? token rest.head? = some .only := by
      simp [Goal.take?, hkind]
    refine ((AtGoals.take hp htake).expect_take hkind).mono ?_
    intro _ q hq
    exact ⟨rest, Nat.lt_succ_self _, hq⟩
  · have hnone : ∀ token ∈ left.head?, ∀ next, (Goal.token kind what).take? token next = none := by
      intro token member next
      simp [Goal.take?, hother token member]
    exact (AtGoals.reject hp rfl hnone).expect_reject hother

/-! ### What enters a rule -/

theorem AtGoals.startNode {enters : List NodeKind} {below : List Goal} (hrule : rule ≠ .document)
    (htake : goal.take? token rest.head? = some ⟨rule :: enters, goals⟩)
    (h : parser.AtGoals entry (token :: rest) (goal :: below) p) :
    parser.Returns (parser.startNode rule) p fun _ q =>
      parser.At 256 (rule :: closes below) (token :: rest)
        ((traceGoals parser.source.utf8ByteSize rest (goals ++ below)).after
          (token.taking enters)) q :=
  (AtGoals.take h htake).startNode hrule

/-- A rule around what another goal asks for. -/
theorem AtGoals.startNode_within {taken : Taken} {inner : Goal} {below : List Goal}
    (hrule : rule ≠ .document)
    (htake : goal.take? token rest.head? = some ((taken.andThen goals).within rule))
    (hinner : inner.take? token rest.head? = some taken) (hcloses : closes goals = [rule])
    (h : parser.AtGoals entry (token :: rest) (goal :: below) p) :
    parser.Returns (parser.startNode rule) p fun _ q =>
      parser.AtGoals 256 (token :: rest) (inner :: (goals ++ below)) q := by
  have hopen : closes (inner :: (goals ++ below)) = rule :: closes below := by
    rw [closes_cons_of_take hinner, closes_append, hcloses, List.singleton_append]
  rw [AtGoals, traceGoals_within htake hinner, closes_cons_of_take htake] at h
  refine (h.startNode hrule).mono fun _ q hq => ?_
  rw [AtGoals, hopen]
  exact hq

/-- What comes behind the first token of a rule, up to the end of the rule or beyond it. -/
theorem Meets.behind {all below : List Goal} (h : parser.Meets x goals rest 256 exit)
    (later : List Goal) (hrule : rule ≠ .document)
    (htake : goal.take? token rest.head? = some ⟨[rule], all⟩) (hall : all = goals ++ later)
    (hp : parser.At 256 (rule :: closes below) rest
      (traceGoals parser.source.utf8ByteSize rest (all ++ below)) p) :
    parser.Returns x p fun _ q =>
      ∃ left, left.length < (token :: rest).length ∧
        parser.AtGoals exit left (later ++ below) q := by
  have hgoals := atGoals_of_taken hrule htake hp
  rw [hall, List.append_assoc] at hgoals
  refine (h (later ++ below) p hgoals).mono ?_
  rintro _ q ⟨left, hleft, hq⟩
  exact ⟨left, Nat.lt_succ_of_le hleft, hq⟩

/-- A rule that starts with the token it is called at. -/
theorem takes_startNode_bump (hrule : rule ≠ .document)
    (htake : goal.take? token rest.head? = some ⟨[rule], goals⟩)
    (h : parser.Meets x goals rest 256 exit) :
    parser.Takes (do parser.startNode rule; parser.bump; x) [goal] (token :: rest) entry exit := by
  intro below p hp
  exact (AtGoals.startNode hrule htake hp).bind fun _ q hq =>
    hq.bump.bind fun _ r hr => h.behind [] hrule htake goals.append_nil.symm hr

theorem takes_startNode_assert (hrule : rule ≠ .document) (hkind : token.kind = kind)
    (htake : goal.take? token rest.head? = some ⟨[rule], goals⟩)
    (h : parser.Meets x goals rest 256 exit) :
    parser.Takes (do parser.startNode rule; assertCurrent kind; parser.bump; x) [goal]
      (token :: rest) entry exit := by
  intro below p hp
  exact (AtGoals.startNode hrule htake hp).bind fun _ q hq =>
    (hq.assertCurrent hkind).bind fun _ r hr =>
      hr.bump.bind fun _ s hs => h.behind [] hrule htake goals.append_nil.symm hs

/-- A rule that must be there and starts with a token of one kind. -/
theorem takes_startNode_expect (hrule : rule ≠ .document)
    (htake : ∀ token ∈ left.head?, ∀ next, goal.take? token next =
      if token.kind = kind then some ⟨[rule], goals⟩ else none)
    (hdecline : goal.decline left.head? = .reject [rule] ("expected " ++ what))
    (h : ∀ rest, rest.length < left.length → parser.Meets x goals rest 256 exit) :
    parser.Takes (do parser.startNode rule; parser.expect kind what; x) [goal] left entry exit := by
  intro below p hp
  rcases head_kind left kind with ⟨token, rest, rfl, hkind⟩ | hother
  · have htaken := (htake token rfl rest.head?).trans (if_pos hkind)
    exact (AtGoals.startNode hrule htaken hp).bind fun _ q hq =>
      (hq.expect_take hkind).bind fun _ r hr =>
        (h rest (Nat.lt_succ_self _)).behind [] hrule htaken goals.append_nil.symm hr
  · have hnone : ∀ token ∈ left.head?, ∀ next, goal.take? token next = none :=
      fun token member next => (htake token member next).trans (if_neg (hother token member))
    refine ((AtGoals.reject hp hdecline hnone).startNode hrule).bind fun _ q hq => ?_
    exact (hq.expect_reject hother).bind fun _ _ => False.elim

/-! ### Optional parts and loops -/

theorem meets_optional (hskip : ∀ next, goal.decline next = .skip)
    (hnone : ∀ token next, token.kind ≠ kind → goal.take? token next = none)
    (h : ∀ token rest, left = token :: rest → token.kind = kind →
      parser.Meets x [goal] left exit exit) :
    parser.Meets (do if ← isAt kind then x) [goal] left (exit + 1) exit := by
  intro below p hp
  refine hp.ifAt ?_ ?_
  · intro q token rest hleft hkind hq
    exact h token rest hleft hkind below q hq
  · intro q hother hq
    have hskipped := AtGoals.skip hq hskip fun token member next =>
      hnone token next (hother token member)
    exact (gives_pure ()).returns ⟨left, Nat.le_refl _, hskipped⟩

theorem meets_optionalToken (hskip : ∀ next, goal.decline next = .skip)
    (htake : ∀ token next, goal.take? token next =
      if token.kind = kind then some .only else none) (hexit : exit ≤ 256) :
    parser.Meets (parser.optionalToken kind) [goal] left (exit + 1) exit := by
  refine meets_optional hskip (fun token next hkind => (htake token next).trans (if_neg hkind)) ?_
  rintro token rest rfl hkind
  exact (takes_bump ((htake token _).trans (if_pos hkind))).meets.mono .refl hexit

/-- One or more, up to a token that closes them. -/
theorem takes_loop (hrepeats : Goal.Repeats close one more)
    (hloop : y = do x; if ← isAt close then parser.bump else y)
    (h : ∀ rest, rest.length ≤ left.length → parser.Takes x [one] rest 3 4) :
    parser.Takes y [one, more] left 3 256 := by
  -- Each turn takes a token, so fewer are left for the next one.
  induction hlength : left.length using Nat.strong_induction_on generalizing left with
  | _ length ih =>
    subst hlength
    rw [hloop]
    intro below p hp
    refine (h left (Nat.le_refl _) (more :: below) p hp).bind ?_
    rintro _ q ⟨rest, hrest, hq⟩
    refine hq.ifAt ?_ ?_
    · rintro q token rest rfl hkind hq
      have htake : more.take? token rest.head? = some .only := by
        rw [hrepeats.take, Goal.closeOr, if_pos hkind]
      refine (AtGoals.take hq htake).bump.mono ?_
      intro _ r hr
      exact ⟨rest, Nat.lt_trans (Nat.lt_succ_self _) hrest, hr⟩
    · intro q hother hq
      rw [hrepeats.traceGoals hother, hrepeats.closes] at hq
      have hturn := ih rest.length hrest
        (fun last hlast => h last (Nat.le_trans hlast (Nat.le_of_lt hrest))) rfl below q hq
      refine hturn.mono ?_
      rintro _ r ⟨last, hlast, hr⟩
      exact ⟨last, Nat.lt_trans hlast hrest, hr⟩

end meets

end Parser

end GuardedQuery
