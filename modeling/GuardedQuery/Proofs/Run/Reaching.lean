import GuardedQuery.Proofs.Run.Spelling

/-! # How far a run gets

A run takes tokens, leaves goals out and closes rules, one step at a time, until a goal
finds fault or none is left.  What it has taken so far together with what its goals still
ask for is always a derivation, so every run stands at the start of some document.

- `Reaches`: the steps of a run from one stack of goals to another.
- `Reaches.trace`, `Reaches.spells`: what the steps do, and what they stand for.
- `settles`: every run gets to a place where it stops.
-/

namespace GuardedQuery

open Grammar Grammar.Pattern GuardedQuery.Tree

namespace Goal

variable {goal : Goal}

/-- Whether a goal takes a token does not depend on the token behind it. -/
theorem take?_eq_none {token : Token} {next : Option Token} (h : goal.take? token next = none)
    (other : Option Token) : goal.take? token other = none := by
  have hselection (next : Option Token) :
      takeSelection? token next = none ↔ token.kind ≠ .spread ∧ token.kind ≠ .name := by
    simp only [takeSelection?, takeSpread?, takeField?]
    by_cases hspread : token.kind = .spread <;> by_cases hname : token.kind = .name <;>
      simp [hspread, hname] <;> split <;> simp
  -- Only selections look at the token behind, and only to choose between two ways.
  cases goal with
  | selection => exact (hselection other).2 ((hselection next).1 h)
  | moreSelections =>
    simp only [take?, closeOr] at h ⊢
    split
    · next hclose => simp [hclose] at h
    · next hclose =>
      rw [if_neg hclose, Option.map_eq_none_iff, hselection] at h
      rw [Option.map_eq_none_iff, hselection]
      exact h
  | _ => exact h

/-- Whether a goal may be left out does not depend on where it stands. -/
theorem decline_eq_skip {token : Option Token} (h : goal.decline token = .skip)
    (other : Option Token) : goal.decline other = .skip := by
  cases goal with
  | fragmentName | value _ | listItems _ =>
    simp only [decline, declineValue] at h
    split at h <;> cases h
  | _ => exact h

theorem eq_leave_of_decline {token : Option Token} {rule : NodeKind}
    (h : goal.decline token = .leave rule) : goal = .leave rule := by
  cases goal with
  | leave _ => cases h; rfl
  | fragmentName | value _ | listItems _ =>
    simp only [decline, declineValue] at h
    split at h <;> cases h
  | _ => cases h

end Goal

inductive Reaches (rest : List Token) :
    List Token → List Goal → List Event → List Goal → Prop where
  | refl {goals : List Goal} : Reaches rest [] goals [] goals
  | take {token : Token} {front : List Token} {goal : Goal} {goals left : List Goal}
      {taken : Taken} {events : List Event}
      (htake : goal.take? token (front ++ rest).head? = some taken)
      (h : Reaches rest front (taken.goals ++ goals) events left) :
      Reaches rest (token :: front) (goal :: goals) (token.taking taken.enters ++ events) left
  | skip {front : List Token} {goal : Goal} {goals left : List Goal} {events : List Event}
      (hskip : ∀ token, goal.decline token = .skip)
      (hnone : ∀ token ∈ (front ++ rest).head?, ∀ next, goal.take? token next = none)
      (h : Reaches rest front goals events left) :
      Reaches rest front (goal :: goals) events left
  | leave {front : List Token} {rule : NodeKind} {goals left : List Goal} {events : List Event}
      (h : Reaches rest front goals events left) :
      Reaches rest front (.leave rule :: goals) (.exit rule :: events) left

namespace Reaches

variable {rest front : List Token} {goals left : List Goal} {events : List Event}

/-- Only the first of the tokens behind is looked at. -/
theorem congr_head (h : Reaches rest front goals events left) {other : List Token}
    (hhead : other.head? = rest.head?) : Reaches other front goals events left := by
  have hfront (front : List Token) : (front ++ other).head? = (front ++ rest).head? := by
    simp [List.head?_append, hhead]
  induction h with
  | refl => exact .refl
  | take htake _ ih => exact .take (by rw [hfront, htake]) ih
  | skip hskip hnone _ ih => exact .skip hskip (by rwa [hfront]) ih
  | leave _ ih => exact .leave ih

/-- The run goes on where the steps lead. -/
theorem trace (h : Reaches rest front goals events left) (size : Nat) :
    traceGoals size (front ++ rest) goals = (traceGoals size rest left).after events := by
  induction h with
  | refl => rfl
  | take htake _ ih => rw [List.cons_append, traceGoals_take htake, ih, Trace.after_after]
  | skip hskip hnone _ ih => rw [traceGoals_skip hskip hnone, ih]
  | leave _ ih => rw [traceGoals_leave, ih, Trace.after_after]; rfl

end Reaches

/-! ## Steps and derivations -/

section spells

variable {goal : Goal} {goals : List Goal} {tokens : List Token} {events : List Event}

/-- What meets the goals behind a token that was taken meets, with the token in front,
the goals before. -/
theorem take?_spells {token : Token} {next : Option Token} {taken : Taken}
    (htrivia : token.isTrivia = false) (htake : goal.take? token next = some taken)
    (h : Spells (taken.goals ++ goals) tokens events) :
    Spells (goal :: goals) (token :: tokens) (token.taking taken.enters ++ events) := by
  -- What meets the goal ends where what meets the goals below begins.
  obtain ⟨front, back, before, later, rfl, rfl, hfront, hback⟩ := h.of_append
  cases hpatterns : goal.patterns? with
  | some patterns =>
    obtain ⟨trees, hderives, hleaves, hevents⟩ :=
      Goal.take?_opens hpatterns token next taken htrivia htake front before hfront
    rw [← List.cons_append, hleaves, ← List.append_assoc, hevents]
    exact .goal hpatterns hderives hback
  | none =>
    cases goal with
    | leave _ => cases htake
    | firstDefinition =>
      obtain ⟨inner, hinner, rfl⟩ := Option.map_eq_some_iff.1 htake
      obtain ⟨trees, hderives, hleaves, hevents⟩ :=
        Goal.takeDefinition?_opens token next inner htrivia hinner front before hfront
      have hentry : entry .document (allLeaves trees) =
          [(Place.ofToken token).enter .document] := by
        rw [← hleaves, entry, significant_cons, htrivia]
        rfl
      rw [← List.cons_append, hleaves, ← List.append_assoc]
      have hspells := Spells.first hderives hback
      rw [hentry, ← hevents] at hspells
      simpa [Taken.within, Token.taking] using hspells
    | _ => cases hpatterns

/-- A goal that may be left out asks for nothing that must be there. -/
theorem spells_of_skip (hskip : ∀ token, goal.decline token = .skip)
    (h : Spells goals tokens events) : Spells (goal :: goals) tokens events := by
  have hempty : ∃ patterns, goal.patterns? = some patterns ∧ Derives (sequence patterns) [] := by
    have hdecline := hskip none
    cases goal with
    | definitions | moreDirectives _ =>
      exact ⟨_, rfl, derives_sequence_singleton.2 .done⟩
    | optionalName | optionalVariableDefinitions | optionalBang | optionalDefault
    | optionalTypeCondition | optionalSelectionSet | optionalDirectives _
    | optionalArguments _ => exact ⟨_, rfl, derives_sequence_singleton.2 .absent⟩
    | fragmentName | value _ | listItems _ =>
      simp only [Goal.decline, Goal.declineValue] at hdecline
      split at hdecline <;> cases hdecline
    | _ => cases hdecline
  obtain ⟨patterns, hpatterns, hderives⟩ := hempty
  exact .goal hpatterns hderives h

/-- What meets the goals that a run gets to completes what it has taken. -/
theorem Reaches.spells {rest front : List Token} {left : List Goal}
    (h : Reaches rest front goals events left) (htrivia : ∀ token ∈ front, token.isTrivia = false)
    {later : List Event} (hleft : Spells left tokens later) :
    Spells goals (front ++ tokens) (events ++ later) := by
  induction h with
  | refl => exact hleft
  | take htake _ ih =>
    rw [List.forall_mem_cons] at htrivia
    rw [List.cons_append, List.append_assoc]
    exact take?_spells htrivia.1 htake (ih htrivia.2 hleft)
  | skip hskip _ _ ih => exact spells_of_skip hskip (ih htrivia hleft)
  | leave _ ih => exact .leave (ih htrivia hleft)

end spells

/-! ## Where a run stops -/

inductive Stops (tokens : List Token) : List Goal → Prop where
  | met : Stops tokens []
  | rejected {goal : Goal} {goals : List Goal} {enters : List NodeKind} {message : String}
      (hreject : goal.decline tokens.head? = .reject enters message)
      (hnone : ∀ token ∈ tokens.head?, ∀ next, goal.take? token next = none) :
      Stops tokens (goal :: goals)

def Settles (tokens : List Token) (goals : List Goal) : Prop :=
  ∃ front rest events left, tokens = front ++ rest ∧ Reaches rest front goals events left ∧
    Stops rest left

/-- A goal that takes nothing is left out, ends its rule, or stops the run. -/
theorem Settles.cons_of_none {tokens : List Token} {goal : Goal} {goals : List Goal}
    (hnone : ∀ token ∈ tokens.head?, ∀ next, goal.take? token next = none)
    (h : Settles tokens goals) : Settles tokens (goal :: goals) := by
  obtain ⟨front, rest, events, left, rfl, hreaches, hstops⟩ := h
  cases hdecline : goal.decline (front ++ rest).head? with
  | skip =>
    exact ⟨front, rest, events, left, rfl, .skip (Goal.decline_eq_skip hdecline) hnone hreaches,
      hstops⟩
  | leave rule =>
    obtain rfl := Goal.eq_leave_of_decline hdecline
    exact ⟨front, rest, _, left, rfl, .leave hreaches, hstops⟩
  | reject enters message =>
    exact ⟨[], front ++ rest, [], goal :: goals, rfl, .refl, .rejected hdecline hnone⟩

theorem settles (tokens : List Token) (goals : List Goal) : Settles tokens goals := by
  -- A token that is taken brings new goals, so the goals are any in the outer induction.
  induction tokens generalizing goals with
  | nil =>
    induction goals with
    | nil => exact ⟨[], [], [], [], rfl, .refl, .met⟩
    | cons goal goals ih => exact ih.cons_of_none (by simp)
  | cons token tokens ih =>
    induction goals with
    | nil => exact ⟨[], token :: tokens, [], [], rfl, .refl, .met⟩
    | cons goal goals ihgoals =>
      cases htake : goal.take? token tokens.head? with
      | some taken =>
        obtain ⟨front, rest, events, left, rfl, h, hstops⟩ := ih (taken.goals ++ goals)
        exact ⟨token :: front, rest, _, left, rfl, .take htake h, hstops⟩
      | none =>
        refine ihgoals.cons_of_none ?_
        intro first member next
        cases member
        exact Goal.take?_eq_none htake next

/-! ## Documents -/

/-- What meets the goals of a document is the walk through a document. -/
theorem spells_documentGoals {tokens : List Token} {events : List Event}
    (h : Spells documentGoals tokens events) :
    ∃ children, Derives (production .document false) children ∧ tokens = allLeaves children ∧
      events = allEvents [.node .document children] := by
  cases h with
  | goal hpatterns _ _ => cases hpatterns
  | first hderives h =>
    cases h with
    | goal hpatterns hmany h =>
      cases hpatterns
      cases h with
      | goal hpatterns _ _ => cases hpatterns
      | leave h =>
        cases h
        have hchildren := Derives.both hderives hmany
        refine ⟨_, hchildren, by simp, ?_⟩
        have hfirst := hderives.allLeaves_ne_nil rfl
        rw [← significant_allLeaves (hderives.proper rfl)] at hfirst
        simp [allEvents, Tree.events, entry_append .document _ hfirst]

end GuardedQuery
