import GuardedQuery.Proofs.Grammar.Derivation
import GuardedQuery.Proofs.Run.Taking
import GuardedQuery.Proofs.Run.Trace

/-! # Reading derivations

A run over the leaves of a derivation walks through its trees, whatever tokens follow,
as long as the first of them cannot prolong the trees.  Two notions carry the argument,
one for tokens that open a pattern and one for goals that ask for patterns; both are
closed under the ways in which productions are built.

- `Avoids`: the next token is of none of some kinds.
- `Takes`: a way to take a token reads every derivation of a pattern.
- `Reads`: goals read every derivation of a sequence of patterns.
-/

namespace GuardedQuery

open Grammar Grammar.Pattern GuardedQuery.Tree

def Avoids (stops : List TokenKind) (tokens : List Token) : Prop :=
  ∀ token ∈ tokens.head?, token.kind ∉ stops

theorem Avoids.mono {stops others : List TokenKind} {tokens : List Token}
    (h : Avoids stops tokens) (hsubset : others ⊆ stops) : Avoids others tokens :=
  fun token member hmem => h token member (hsubset hmem)

theorem avoids_nil {tokens : List Token} : Avoids [] tokens := by
  intro token _
  exact List.not_mem_nil

theorem Avoids.any_eq_false {kind : TokenKind} {tokens : List Token} {test : Token → Bool}
    (h : Avoids [kind] tokens) (htest : ∀ token, test token → token.kind = kind) :
    tokens.head?.any test = false := by
  cases hhead : tokens.head? with
  | none => rfl
  | some token =>
    have hkind : token.kind ≠ kind := by simpa using h token hhead
    simpa using mt (htest token) hkind

/-- What follows a derivation is kept from its kinds by the derivation's first token, or
by the next token if there is none. -/
theorem avoids_append {pattern : Pattern} {trees : List Tree} {stops others : List TokenKind}
    {more : List Token} (h : Derives pattern trees) (hfirst : ∀ kind ∈ pattern.first, kind ∉ stops)
    (hnull : pattern.nullable = true → stops ⊆ others) (hmore : Avoids others more) :
    Avoids stops (allLeaves trees ++ more) := by
  intro token member
  rw [List.head?_append, Option.mem_def, Option.or_eq_some_iff] at member
  rcases member with member | ⟨hnone, member⟩
  · exact hfirst token.kind (h.kind_mem_first token member)
  · have hnullable : pattern.nullable = true := by
      rw [← Bool.not_eq_false]
      exact fun hfalse => h.allLeaves_ne_nil hfalse (List.head?_eq_none_iff.1 hnone)
    exact hmore.mono (hnull hnullable) token member

/-- The way to take a token reads every derivation of the pattern with at most that
depth, if the next token is of none of the kinds. -/
def Takes (bound : Nat) (take : Taking) (pattern : Pattern) (stops : List TokenKind) : Prop :=
  ∀ trees, Derives pattern trees → (∀ tree ∈ trees, tree.Within bound) →
    ∀ more, Avoids stops more → ∃ token rest taken, allLeaves trees = token :: rest ∧
      take token (rest ++ more).head? = some taken ∧ ∀ size goals,
        (traceGoals size (rest ++ more) (taken.goals ++ goals)).after
          (token.taking taken.enters) = (traceGoals size more goals).after (allEvents trees)

/-- The goals read every derivation of the patterns with at most that depth. -/
def Reads (bound : Nat) (goals : List Goal) (patterns : List Pattern)
    (stops : List TokenKind) : Prop :=
  ∀ trees, Derives (sequence patterns) trees → (∀ tree ∈ trees, tree.Within bound) →
    ∀ more, Avoids stops more → ∀ size below,
      traceGoals size (allLeaves trees ++ more) (goals ++ below) =
        (traceGoals size more below).after (allEvents trees)

variable {bound : Nat} {take other : Taking} {pattern more : Pattern} {goal : Goal}
  {goals : List Goal} {patterns others : List Pattern} {stops ends : List TokenKind}
  {kind : TokenKind}

/-- The kind of a derivation's first token, where the pattern starts with one kind only. -/
theorem first_kind (hfirst : pattern.first = [kind]) {trees : List Tree}
    (h : Derives pattern trees) {token : Token} (member : token ∈ (allLeaves trees).head?) :
    token.kind = kind := by
  have hkind := h.kind_mem_first token member
  rwa [hfirst, List.mem_singleton] at hkind

/-! ## Goals in sequence -/

namespace Reads

theorem nil : Reads bound [] [] stops := by
  intro trees h _ more _ size below
  cases h
  rfl

theorem weaken (h : Reads bound goals patterns stops) (hsubset : stops ⊆ ends) :
    Reads bound goals patterns ends :=
  fun trees hderives hwithin more havoids =>
    h trees hderives hwithin more (havoids.mono hsubset)

theorem append {later : List Goal} (h : Reads bound goals patterns stops)
    (hlater : Reads bound later others ends)
    (hfirst : ∀ kind ∈ (sequence others).first, kind ∉ stops)
    (hnull : (sequence others).nullable = true → stops ⊆ ends) :
    Reads bound (goals ++ later) (patterns ++ others) ends := by
  intro trees hderives hwithin more havoids size below
  obtain ⟨front, back, rfl, hfront, hback⟩ := derives_sequence_append.1 hderives
  rw [List.forall_mem_append] at hwithin
  have hbetween := avoids_append hback hfirst hnull havoids
  rw [allLeaves_append, List.append_assoc, List.append_assoc,
    h front hfront hwithin.1 _ hbetween size, hlater back hback hwithin.2 more havoids size,
    Trace.after_after, allEvents_append]

theorem cons (h : Reads bound [goal] [pattern] stops) (hgoals : Reads bound goals others ends)
    (hfirst : ∀ kind ∈ (sequence others).first, kind ∉ stops)
    (hnull : (sequence others).nullable = true → stops ⊆ ends) :
    Reads bound (goal :: goals) (pattern :: others) ends :=
  append h hgoals hfirst hnull

theorem of_takes (h : Takes bound goal.take? pattern stops) :
    Reads bound [goal] [pattern] stops := by
  intro trees hderives hwithin more havoids size below
  obtain ⟨token, rest, taken, hleaves, htake, hrun⟩ :=
    h trees (derives_sequence_singleton.1 hderives) hwithin more havoids
  rw [hleaves, List.cons_append, List.singleton_append, traceGoals_take htake, hrun]

/-- A goal that may be left out. -/
theorem optional (h : Takes bound goal.take? pattern stops)
    (hskip : ∀ token, goal.decline token = .skip)
    (hnone : ∀ token next, token.kind ≠ kind → goal.take? token next = none) :
    Reads bound [goal] [pattern.optional] (kind :: stops) := by
  intro trees hderives hwithin more havoids size below
  rcases derives_optional.1 (derives_sequence_singleton.1 hderives) with rfl | hderives
  · refine traceGoals_skip hskip fun token member next => hnone token next fun hkind => ?_
    exact havoids token member (by simp [hkind])
  · exact of_takes h trees (derives_sequence_singleton.2 hderives) hwithin more
      (havoids.mono (List.subset_cons_self _ _)) size below

/-- The rounds of a repetition, if the goal comes back behind each of them. -/
theorem rounds (h : Takes bound take pattern stops)
    (htake : ∀ token next, token.kind ∈ pattern.first →
      goal.take? token next = take.andThen [goal] token next)
    (hfirst : ∀ kind ∈ pattern.first, kind ∉ stops) {trees : List Tree}
    (hderives : Derives pattern.many trees) (hwithin : ∀ tree ∈ trees, tree.Within bound)
    {more : List Token} (havoids : Avoids stops more) (size : Nat) (below : List Goal) :
    traceGoals size (allLeaves trees ++ more) (goal :: below) =
      (traceGoals size more (goal :: below)).after (allEvents trees) := by
  revert hwithin
  refine hderives.many_induction (motive := fun trees => (∀ tree ∈ trees, tree.Within bound) →
    traceGoals size (allLeaves trees ++ more) (goal :: below) =
      (traceGoals size more (goal :: below)).after (allEvents trees)) (fun _ => rfl) ?_
  intro front back hfront hback ih hwithin
  rw [List.forall_mem_append] at hwithin
  have hbetween : Avoids stops (allLeaves back ++ more) :=
    avoids_append hback hfirst (fun _ => List.Subset.refl _) havoids
  obtain ⟨token, rest, taken, hleaves, htakes, hrun⟩ := h front hfront hwithin.1 _ hbetween
  have hkind : token.kind ∈ pattern.first := hfront.kind_mem_first token (by simp [hleaves])
  have hgoal : goal.take? token (rest ++ (allLeaves back ++ more)).head? =
      some (taken.andThen [goal]) := by
    rw [htake _ _ hkind, Taking.andThen, htakes]
    rfl
  have hrun := hrun size (goal :: below)
  rw [allLeaves_append, List.append_assoc, hleaves, List.cons_append, traceGoals_take hgoal]
  simp only [Taken.andThen, List.append_assoc, List.singleton_append]
  rw [hrun, ih hwithin.2, Trace.after_after, allEvents_append]

/-- A repetition that ends where the next token starts no round. -/
theorem many (h : Takes bound take pattern stops) (htake : goal.take? = take.andThen [goal])
    (hskip : ∀ token, goal.decline token = .skip)
    (hfirst : ∀ kind ∈ pattern.first, kind ∉ stops)
    (hnone : ∀ token next, token.kind ≠ kind → take token next = none) :
    Reads bound [goal] [pattern.many] (kind :: stops) := by
  intro trees hderives hwithin more havoids size below
  rw [List.singleton_append, rounds h (fun _ _ _ => by rw [htake]) hfirst
    (derives_sequence_singleton.1 hderives) hwithin
    (havoids.mono (List.subset_cons_self _ _)), traceGoals_skip hskip]
  intro token member next
  have hkind : token.kind ≠ kind := fun hkind => havoids token member (by simp [hkind])
  rw [htake, Taking.andThen, hnone token next hkind]
  rfl

/-- A repetition that ends with the closing token. -/
theorem closeOr {close : TokenKind} (h : Takes bound take pattern stops)
    (htake : goal.take? = fun t next => Goal.closeOr close t goal (take t next))
    (hsignificant : close.isTrivia = false) (hclose : close ∉ pattern.first ++ stops)
    (hfirst : ∀ kind ∈ pattern.first, kind ∉ stops) :
    Reads bound [goal] [pattern.many, punctuator close] [] := by
  intro trees hderives hwithin more _ size below
  obtain ⟨items, last, rfl, hitems, hlast⟩ := derives_sequence_cons.1 hderives
  obtain ⟨token, hadmits, rfl⟩ := derives_token.1 (derives_sequence_singleton.1 hlast)
  have hkind : token.kind = close := hadmits
  rw [List.mem_append, not_or] at hclose
  have havoids : Avoids stops (token :: more) := by
    intro next member
    cases member
    exact hkind ▸ hclose.2
  have hround : ∀ token next, token.kind ∈ pattern.first →
      goal.take? token next = take.andThen [goal] token next := by
    intro token next hmem
    rw [htake]
    exact if_neg fun heq : token.kind = close => hclose.1 (heq ▸ hmem)
  have hlast : goal.take? token more.head? = some .only := by
    rw [htake]
    exact if_pos hkind
  rw [List.forall_mem_append] at hwithin
  rw [allLeaves_append, List.append_assoc, List.singleton_append]
  simp only [allLeaves_cons, allLeaves_nil, leaves_leaf, List.append_nil, List.singleton_append]
  rw [rounds h hround hfirst hitems hwithin.1 havoids, traceGoals_take hlast, Trace.after_after,
    allEvents_append]
  simp [Taken.only, Token.taking, allEvents, Tree.events, Token.isTrivia, hkind, hsignificant]

end Reads

/-! ## Tokens that open a pattern -/

namespace Takes

theorem weaken (h : Takes bound take pattern stops) (hsubset : stops ⊆ ends) :
    Takes bound take pattern ends :=
  fun trees hderives hwithin more havoids =>
    h trees hderives hwithin more (havoids.mono hsubset)

theorem token {test : Token → Bool} {terminal : Terminal}
    (hsignificant : terminal.tokenKind.isTrivia = false)
    (htest : ∀ token, terminal.Admits token.lexeme → test token)
    (hgoals : Reads bound goals patterns stops) :
    Takes bound (opening test goals) (sequence (.token terminal :: patterns)) stops := by
  intro trees hderives hwithin more havoids
  obtain ⟨token, back, rfl, hadmits, hback⟩ := derives_sequence_token.1 hderives
  have htrivia : token.isTrivia = false := by
    rw [Token.isTrivia, ← Token.lexeme_kind, hadmits.kind_eq, hsignificant]
  rw [List.forall_mem_cons] at hwithin
  refine ⟨token, allLeaves back, ⟨[], goals⟩, rfl, if_pos (htest token hadmits), ?_⟩
  intro size below
  rw [hgoals back hback hwithin.2 more havoids size below, Trace.after_after]
  simp [Token.taking, allEvents, Tree.events, htrivia]

theorem punctuator {kind : TokenKind} (hsignificant : kind.isTrivia = false)
    (hgoals : Reads bound goals patterns stops) :
    Takes bound (opening (·.kind = kind) goals) (sequence (punctuator kind :: patterns)) stops :=
  token hsignificant (by simp [Terminal.Admits]) hgoals

theorem of_sequence (h : Takes bound take (sequence [pattern]) stops) :
    Takes bound take pattern stops :=
  fun trees hderives => h trees (derives_sequence_singleton.2 hderives)

/-- A rule around a pattern; its trees lie one node deeper. -/
theorem inside {rule : NodeKind} {constant : Bool}
    (h : ∀ inner, inner + 1 = bound → Takes inner take pattern stops)
    (heq : production rule constant = pattern) :
    Takes bound (take.inside rule) (.rule rule constant) stops := by
  subst heq
  intro trees hderives hwithin more havoids
  obtain ⟨children, hchildren, rfl⟩ := derives_rule.1 hderives
  rw [List.forall_mem_singleton] at hwithin
  cases bound with
  | zero => exact hwithin.elim
  | succ inner =>
    obtain ⟨token, rest, taken, hleaves, htake, hrun⟩ :=
      h inner rfl children hchildren hwithin more havoids
    refine ⟨token, rest, (taken.andThen [.leave rule]).within rule, by simpa using hleaves, ?_, ?_⟩
    · rw [Taking.inside, htake]
      rfl
    intro size goals
    have hrun := hrun size (.leave rule :: goals)
    have hproper := hchildren.proper (production_isInner rule constant)
    have hentry : entry rule (allLeaves children) = [(Place.ofToken token).enter rule] :=
      entry_allLeaves rule hproper hleaves
    simp only [Taken.within, Taken.andThen, List.append_assoc, List.singleton_append]
    rw [show token.taking (rule :: taken.enters) =
      [(Place.ofToken token).enter rule] ++ token.taking taken.enters from rfl, ← Trace.after_after,
      hrun, traceGoals_leave, Trace.after_after, Trace.after_after]
    simp [allEvents, Tree.events, hentry]

theorem andThen (h : Takes bound take pattern stops) (hgoals : Reads bound goals others ends)
    (hfirst : ∀ kind ∈ (sequence others).first, kind ∉ stops)
    (hnull : (sequence others).nullable = true → stops ⊆ ends) :
    Takes bound (take.andThen goals) (sequence (pattern :: others)) ends := by
  intro trees hderives hwithin more havoids
  obtain ⟨front, back, rfl, hfront, hback⟩ := derives_sequence_cons.1 hderives
  rw [List.forall_mem_append] at hwithin
  have hbetween := avoids_append hback hfirst hnull havoids
  obtain ⟨token, rest, taken, hleaves, htake, hrun⟩ := h front hfront hwithin.1 _ hbetween
  refine ⟨token, rest ++ allLeaves back, taken.andThen goals, by simp [hleaves], ?_, ?_⟩
  · rw [List.append_assoc, Taking.andThen, htake]
    rfl
  intro size below
  have hrun := hrun size (goals ++ below)
  simp only [Taken.andThen, List.append_assoc]
  rw [hrun, hgoals back hback hwithin.2 more havoids, Trace.after_after, allEvents_append]

theorem either (h : Takes bound take pattern stops) (hmore : Takes bound take more stops) :
    Takes bound take (pattern ||| more) stops := by
  intro trees hderives
  rcases derives_either.1 hderives with hderives | hderives
  · exact h trees hderives
  · exact hmore trees hderives

theorem optional_cons (habsent : Takes bound take (sequence patterns) stops)
    (hpresent : Takes bound take (sequence (pattern :: patterns)) stops) :
    Takes bound take (sequence (pattern.optional :: patterns)) stops := by
  intro trees hderives
  obtain ⟨front, back, rfl, hfront, hback⟩ := derives_sequence_cons.1 hderives
  rcases derives_optional.1 hfront with rfl | hfront
  · exact habsent back hback
  · exact hpresent _ (.both hfront hback)

/-- Two ways to take a token are the same for a pattern if they agree on its first token
and the one behind. -/
theorem congr (h : Takes bound take pattern stops)
    (heq : ∀ trees more, Derives pattern trees → Avoids stops more → ∀ token rest,
      allLeaves trees = token :: rest →
        other token (rest ++ more).head? = take token (rest ++ more).head?) :
    Takes bound other pattern stops := by
  intro trees hderives hwithin more havoids
  obtain ⟨token, rest, taken, hleaves, htake, hrun⟩ := h trees hderives hwithin more havoids
  refine ⟨token, rest, taken, hleaves, ?_, hrun⟩
  rw [heq trees more hderives havoids token rest hleaves, htake]

theorem congr_first (h : Takes bound take pattern stops) (hfirst : pattern.first = [kind])
    (heq : ∀ token next, token.kind = kind → other token next = take token next) :
    Takes bound other pattern stops :=
  h.congr fun _ _ hderives _ token _ hleaves =>
    heq token _ (first_kind hfirst hderives (by simp [hleaves]))

theorem orElse_left (h : Takes bound take pattern stops) :
    Takes bound (take.orElse other) pattern stops := by
  intro trees hderives hwithin more havoids
  obtain ⟨token, rest, taken, hleaves, htake, hrun⟩ := h trees hderives hwithin more havoids
  refine ⟨token, rest, taken, hleaves, ?_, hrun⟩
  rw [Taking.orElse, htake, Option.some_or]

theorem orElse_right (h : Takes bound other pattern stops)
    (hnone : ∀ trees, Derives pattern trees → ∀ token ∈ (allLeaves trees).head?, ∀ next,
      take token next = none) :
    Takes bound (take.orElse other) pattern stops := by
  refine h.congr fun trees more hderives _ token rest hleaves => ?_
  rw [Taking.orElse, hnone trees hderives token (by simp [hleaves]), Option.none_or]

theorem orElse_right_first (h : Takes bound other pattern stops) (hfirst : pattern.first = [kind])
    (hnone : ∀ token next, token.kind = kind → take token next = none) :
    Takes bound (take.orElse other) pattern stops :=
  h.orElse_right fun _ hderives token member next =>
    hnone token next (first_kind hfirst hderives member)

/-- A rule around a single token. -/
theorem scalar {rule : NodeKind} {constant : Bool}
    (h : ∀ children, Derives (production rule constant) children →
      ∃ token, children = [.leaf token] ∧ ∀ next, take token next = some (.scalar rule)) :
    Takes bound take (.rule rule constant) [] := by
  intro trees hderives _ more _
  obtain ⟨children, hchildren, rfl⟩ := derives_rule.1 hderives
  obtain ⟨token, rfl, htake⟩ := h children hchildren
  refine ⟨token, [], .scalar rule, by simp, htake _, fun size goals => ?_⟩
  have htrivia : token.isTrivia = false := by
    cases hchildren.proper (production_isInner rule constant) _ (List.mem_singleton_self _) with
    | leaf h => exact h
  simp only [Taken.scalar, List.nil_append, List.singleton_append]
  rw [traceGoals_leave, Trace.after_after]
  simp [allEvents, Tree.events, entry, significant_cons, htrivia, Token.taking, Place.enter,
    Place.ofToken]

theorem scalar_token {rule : NodeKind} {constant : Bool} {terminal : Terminal}
    (heq : production rule constant = .token terminal)
    (h : ∀ token, terminal.Admits token.lexeme → ∀ next, take token next = some (.scalar rule)) :
    Takes bound take (.rule rule constant) [] := by
  refine .scalar fun children hchildren => ?_
  rw [heq] at hchildren
  obtain ⟨token, hadmits, rfl⟩ := derives_token.1 hchildren
  exact ⟨token, rfl, h token hadmits⟩

end Takes

end GuardedQuery
