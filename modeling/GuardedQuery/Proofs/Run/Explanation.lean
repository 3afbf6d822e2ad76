import GuardedQuery.Proofs.Grammar.Productive
import GuardedQuery.Proofs.Run.Productions
import GuardedQuery.Proofs.Run.Reaching

/-! # How a run over a text ends

A run completes exactly on documents.  Otherwise it stops at the first token that no
document can have there, or behind a document.

- `exists_spells`: every stack of goals can be met.
- `takeDefinition?_eq_none_iff`: the tokens at which a further definition starts.
- `Explained`: what each of the three ways in which a run ends says of the tokens.
- `traceGoals_explained`: every run ends in one of these ways.
-/

namespace GuardedQuery

open Grammar Grammar.Pattern GuardedQuery.Tree

/-- Some tokens meet the goals. -/
theorem exists_spells (goals : List Goal) : ∃ tokens events, Spells goals tokens events := by
  induction goals with
  | nil => exact ⟨[], [], .nil⟩
  | cons goal goals ih =>
    obtain ⟨tokens, events, h⟩ := ih
    have hgoal {patterns : List Pattern} (hpatterns : goal.patterns? = some patterns)
        (hproductive : (sequence patterns).isProductive (fun _ _ => true) = true) :
        ∃ tokens events, Spells (goal :: goals) tokens events := by
      obtain ⟨trees, htrees⟩ := exists_derives hproductive
      exact ⟨_, _, .goal hpatterns htrees h⟩
    cases goal with
    | leave rule => exact ⟨tokens, _, .leave h⟩
    | firstDefinition =>
      obtain ⟨trees, htrees⟩ : ∃ trees, Derives definition trees := exists_derives rfl
      exact ⟨_, _, .first htrees h⟩
    | value constant | listItems constant => cases constant <;> exact hgoal rfl rfl
    | _ => exact hgoal rfl rfl

/-! ## Where a definition starts -/

theorem Goal.takeDefinition?_congr {token other : Token} (h : token.lexeme = other.lexeme) :
    takeDefinition? token = takeDefinition? other := by
  simp only [Token.lexeme, Lexeme.mk.injEq] at h
  simp [takeDefinition?, takeSelectionSet?, Token.isWord, h]

theorem Goal.takeDefinition?_isTrivia {token : Token} {taken : Taken}
    (h : takeDefinition? token = some taken) : token.isTrivia = false := by
  have hkind : token.kind = .name ∨ token.kind = .braceOpen := by
    by_cases hname : token.kind = .name
    · exact .inl hname
    · by_cases hbrace : token.kind = .braceOpen
      · exact .inr hbrace
      · simp [takeDefinition?, takeSelectionSet?, Token.isWord, hname, hbrace] at h
  rcases hkind with hkind | hkind <;> rw [Token.isTrivia, hkind] <;> rfl

theorem takeDefinition?_eq_none_iff {token : Token} :
    Goal.takeDefinition? token = none ↔ ¬ StartsDefinition token.lexeme := by
  constructor
  · -- A run reads every definition, so it takes the first token of each.
    rintro hnone ⟨tree, hderives, hhead⟩
    obtain ⟨bound, hbound⟩ := hderives.within
    obtain ⟨first, rest, taken, hleaves, htake, _⟩ :=
      Goal.takeDefinition?_takes [tree] hderives hbound [] avoids_nil
    rw [allLeaves_cons, allLeaves_nil, List.append_nil] at hleaves
    rw [hleaves, List.map_cons, List.head?_cons, Option.some.injEq] at hhead
    have htake : Goal.takeDefinition? first = some taken := htake
    rw [Goal.takeDefinition?_congr hhead, hnone] at htake
    cases htake
  · intro hstarts
    cases htake : Goal.takeDefinition? token with
    | none => rfl
    | some taken =>
      obtain ⟨tokens, events, hspells⟩ := exists_spells taken.goals
      obtain ⟨trees, hderives, hleaves, _⟩ := Goal.takeDefinition?_opens token none taken
        (Goal.takeDefinition?_isTrivia htake) htake tokens events hspells
      have hsingle : ∃ tree, trees = [tree] := by
        rcases derives_either.1 hderives with hrule | hrule
        · obtain ⟨children, _, rfl⟩ := derives_rule.1 hrule
          exact ⟨_, rfl⟩
        · obtain ⟨children, _, rfl⟩ := derives_rule.1 hrule
          exact ⟨_, rfl⟩
      obtain ⟨tree, rfl⟩ := hsingle
      rw [allLeaves_cons, allLeaves_nil, List.append_nil] at hleaves
      exact (hstarts ⟨tree, hderives, by rw [← hleaves]; rfl⟩).elim

/-- Once all goals of a document are met, no further definition follows. -/
theorem Reaches.takeDefinition?_eq_none {rest front : List Token} {goals left upper : List Goal}
    {events : List Event} (h : Reaches rest front goals events left) (hleft : left = [])
    (hgoals : goals = upper ++ [.definitions, .leave .document]) :
    ∀ token ∈ rest.head?, Goal.takeDefinition? token = none := by
  -- The two goals at the bottom stay there until no further definition is found.
  induction h generalizing upper with
  | refl => simp [hleft] at hgoals
  | take htake _ ih =>
    cases upper with
    | nil =>
      simp only [List.nil_append, List.cons.injEq] at hgoals
      obtain ⟨rfl, rfl⟩ := hgoals
      obtain ⟨inner, _, rfl⟩ := Option.map_eq_some_iff.1 htake
      have hdefinitions : (inner.andThen [.definitions]).goals ++ [.leave .document] =
          inner.goals ++ [.definitions, .leave .document] := by simp [Taken.andThen]
      exact ih hleft hdefinitions
    | cons goal upper =>
      simp only [List.cons_append, List.cons.injEq] at hgoals
      obtain ⟨rfl, rfl⟩ := hgoals
      exact ih hleft (by rw [List.append_assoc])
  | skip hskip hnone h ih =>
    cases upper with
    | nil =>
      simp only [List.nil_append, List.cons.injEq] at hgoals
      obtain ⟨rfl, rfl⟩ := hgoals
      cases h with
      | refl => cases hleft
      | skip hskip _ _ => cases hskip none
      | leave h =>
        cases h with
        | refl =>
          intro token member
          simpa [Goal.take?] using hnone token member none
      | take htake _ => cases htake
    | cons goal upper =>
      simp only [List.cons_append, List.cons.injEq] at hgoals
      exact ih hleft hgoals.2
  | leave _ ih =>
    cases upper with
    | nil => cases hgoals
    | cons goal upper =>
      simp only [List.cons_append, List.cons.injEq] at hgoals
      exact ih hleft hgoals.2

/-! ## Endings explained -/

/-- How a run over some tokens ends, and what its ending says of them. -/
inductive Explained (size : Nat) (tokens : List Token) : Trace → Prop where
  /-- The tokens are a document, and the events are the walk through it. -/
  | complete {children : List Tree} (hderives : Derives (production .document false) children)
      (htokens : tokens = allLeaves children) :
      Explained size tokens ⟨allEvents [.node .document children], .complete⟩
  | trailing {children : List Tree} {token : Token} {rest : List Token}
      (hderives : Derives (production .document false) children)
      (htokens : tokens = allLeaves children ++ token :: rest)
      (hstart : ¬ StartsDefinition token.lexeme) :
      Explained size tokens ⟨allEvents [.node .document children],
        .trailing ((token :: rest).getLast (by simp))⟩
  /-- The tokens in front start a document, but not with what comes next.  The events up
  to there start the walk through that document. -/
  | anomaly {children : List Tree} {front rest more : List Token} {events later : List Event}
      {enters : List NodeKind} {message : String}
      (hderives : Derives (production .document false) children)
      (htokens : tokens = front ++ rest) (hleaves : allLeaves children = front ++ more)
      (hevents : allEvents [.node .document children] = events ++ later)
      (hdead : ∀ other : List Token, other.head? = rest.head? →
        ¬ IsDocument ((front ++ other).map Token.lexeme)) :
      Explained size tokens
        ⟨events ++ (enters.map (Place.before size rest).enter ++
            [.anomaly ((Place.before size rest).anomaly message)]),
          .anomaly ((Place.before size rest).anomaly message)⟩

theorem traceGoals_complete {children : List Tree}
    (h : Derives (production .document false) children) (size : Nat) :
    traceGoals size (allLeaves children) documentGoals =
      ⟨allEvents [.node .document children], .complete⟩ := by
  have hmore : ∀ token ∈ ([] : List Token).head?, Goal.takeDefinition? token = none := by simp
  simpa [Trace.after] using traceGoals_document h hmore size

theorem traceGoals_explained {size : Nat} {tokens : List Token}
    (hsignificant : ∀ token ∈ tokens, token.isTrivia = false) :
    Explained size tokens (traceGoals size tokens documentGoals) := by
  obtain ⟨front, rest, events, left, rfl, hreaches, hstops⟩ := settles tokens documentGoals
  rw [List.forall_mem_append] at hsignificant
  rw [hreaches.trace size]
  cases hstops with
  | met =>
    have hspells : Spells documentGoals front events := by
      simpa using hreaches.spells hsignificant.1 .nil
    obtain ⟨children, hderives, rfl, rfl⟩ := spells_documentGoals hspells
    cases rest with
    | nil => simpa [Trace.after] using Explained.complete hderives (List.append_nil _)
    | cons token rest =>
      have hgoals : documentGoals = [.firstDefinition] ++ [.definitions, .leave .document] := rfl
      have hnone := hreaches.takeDefinition?_eq_none rfl hgoals token rfl
      simpa [Trace.after] using
        Explained.trailing hderives rfl (takeDefinition?_eq_none_iff.1 hnone)
  | @rejected goal goals enters message hreject hnone =>
    -- What the goals still ask for completes the tokens in front to a document.
    obtain ⟨more, later, hspells⟩ := exists_spells (goal :: goals)
    obtain ⟨children, hderives, hleaves, hevents⟩ :=
      spells_documentGoals (hreaches.spells hsignificant.1 hspells)
    rw [traceGoals_reject hreject hnone]
    refine .anomaly hderives rfl hleaves.symm hevents.symm fun other hother hdocument => ?_
    -- The run stops there whatever follows, but it completes on documents.
    obtain ⟨trees, htrees, htokens⟩ := isDocument_iff.1 hdocument
    have hcomplete := traceGoals_complete htrees size
    rw [htokens, (hreaches.congr_head hother).trace size,
      traceGoals_reject (by rwa [hother]) (by rwa [hother])] at hcomplete
    simpa using congrArg Trace.ending hcomplete

end GuardedQuery
