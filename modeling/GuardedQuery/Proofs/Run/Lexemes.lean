import GuardedQuery.Proofs.Grammar.Basic
import GuardedQuery.Proofs.Run.Trace
import Mathlib.Data.List.Forall2

/-! # A run sees only lexemes

What a run does depends on the kinds and the texts of its tokens.  Where they stand only
shows in the ranges that it reports.

- `Event.Alike`, `Ending.Alike`: reports that differ at most in their ranges.
- `Goal.take?_congr`, `Goal.decline_congr`: what a goal makes of a token.
- `traceGoals_alike`: runs over tokens with the same lexemes.
-/

namespace GuardedQuery

/-! ## Reports alike -/

inductive Event.Alike (Ranges : ByteRange → ByteRange → Prop) : Event → Event → Prop where
  | enter {rule : NodeKind} {range other : ByteRange} {text : String}
      (h : Ranges range other) : Alike Ranges (.enter rule range text) (.enter rule other text)
  | exit {rule : NodeKind} : Alike Ranges (.exit rule) (.exit rule)
  | terminal {kind : TokenKind} {range other : ByteRange} {text : String}
      (h : Ranges range other) :
      Alike Ranges (.terminal kind range text) (.terminal kind other text)
  | anomaly {range other : ByteRange} {text message : String} (h : Ranges range other) :
      Alike Ranges (.anomaly ⟨range, text, message⟩) (.anomaly ⟨other, text, message⟩)

theorem Event.alike_eq : Event.Alike Eq = Eq := by
  funext event other
  refine propext ⟨fun h => ?_, ?_⟩
  · cases h with
    | exit => rfl
    | enter h | terminal h | anomaly h => rw [h]
  · rintro rfl
    cases event with
    | enter rule range text => exact .enter rfl
    | exit rule => exact .exit
    | terminal kind range text => exact .terminal rfl
    | anomaly found => exact .anomaly rfl

abbrev Event.AlikeAnywhere : Event → Event → Prop :=
  Event.Alike fun _ _ => True

inductive Ending.Alike : Ending → Ending → Prop where
  | complete : Alike .complete .complete
  | trailing {last other : Token} (h : last.lexeme = other.lexeme) :
      Alike (.trailing last) (.trailing other)
  | anomaly {range other : ByteRange} {text message : String} :
      Alike (.anomaly ⟨range, text, message⟩) (.anomaly ⟨other, text, message⟩)

inductive Settled.Alike {α : Type} : Settled α → Settled α → Prop where
  | met : Alike .met .met
  | refused {range other : ByteRange} {text message : String} :
      Alike (.refused ⟨range, text, message⟩) (.refused ⟨other, text, message⟩)
  | took {taken : α} {goals : List Goal} : Alike (.took taken goals) (.took taken goals)

structure Trace.Alike (trace other : Trace) : Prop where
  events : List.Forall₂ Event.AlikeAnywhere trace.events other.events
  ending : trace.ending.Alike other.ending

theorem Trace.Alike.after {trace other : Trace} (h : trace.Alike other) {events more : List Event}
    (hevents : List.Forall₂ Event.AlikeAnywhere events more) :
    (trace.after events).Alike (other.after more) :=
  ⟨List.rel_append hevents h.events, h.ending⟩

/-! ## Goals -/

variable {token other : Token} {next last : Option Token}

theorem Goal.take?_congr (goal : Goal) (h : token.lexeme = other.lexeme)
    (hnext : next.map Token.lexeme = last.map Token.lexeme) :
    goal.take? token next = goal.take? other last := by
  obtain ⟨kind, start, text⟩ := token
  obtain ⟨kind', start', text'⟩ := other
  obtain ⟨rfl, rfl⟩ := Lexeme.mk.inj h
  cases next with
  | none =>
    cases last with
    | none => cases goal <;> rfl
    | some behind => cases hnext
  | some ahead =>
    cases last with
    | none => cases hnext
    | some behind =>
      obtain ⟨kind, start, text⟩ := ahead
      obtain ⟨kind', start', text'⟩ := behind
      obtain ⟨rfl, rfl⟩ := Lexeme.mk.inj (Option.some.inj hnext)
      cases goal <;> rfl

theorem Goal.decline_congr (goal : Goal) (h : next.map Token.lexeme = last.map Token.lexeme) :
    goal.decline next = goal.decline last := by
  cases next with
  | none =>
    cases last with
    | none => rfl
    | some behind => cases h
  | some ahead =>
    cases last with
    | none => cases h
    | some behind =>
      obtain ⟨kind, start, text⟩ := ahead
      obtain ⟨kind', start', text'⟩ := behind
      obtain ⟨rfl, rfl⟩ := Lexeme.mk.inj (Option.some.inj h)
      cases goal <;> rfl

/-! ## Runs -/

section settle

variable {α : Type} {place there : Place}

theorem enters_alike (enters : List NodeKind) (htext : place.text = there.text) :
    List.Forall₂ Event.AlikeAnywhere (enters.map place.enter) (enters.map there.enter) := by
  induction enters with
  | nil => exact .nil
  | cons rule enters ih =>
    rw [List.map_cons, List.map_cons, Place.enter, Place.enter, htext]
    exact .cons (.enter trivial) ih

theorem settle_alike (place there : Place) (take? : Goal → Option α)
    (htoken : place.token?.map Token.lexeme = there.token?.map Token.lexeme)
    (htext : place.text = there.text) (goals : List Goal) :
    List.Forall₂ Event.AlikeAnywhere (settle place take? goals).1 (settle there take? goals).1 ∧
      (settle place take? goals).2.Alike (settle there take? goals).2 := by
  induction goals with
  | nil => exact ⟨.nil, .met⟩
  | cons goal goals ih =>
    simp only [settle, ← goal.decline_congr htoken]
    cases take? goal with
    | some taken => exact ⟨.nil, .took⟩
    | none =>
      cases goal.decline place.token? with
      | skip => exact ih
      | leave rule => exact ⟨.cons .exit ih.1, ih.2⟩
      | reject enters message =>
        simp only [Place.anomaly, htext]
        exact ⟨List.rel_append (enters_alike enters htext) (.cons (.anomaly trivial) .nil),
          .refused⟩

end settle

/-- Runs over tokens with the same lexemes go alike. -/
theorem traceGoals_alike {tokens others : List Token}
    (h : tokens.map Token.lexeme = others.map Token.lexeme) (size size' : Nat)
    (goals : List Goal) :
    (traceGoals size tokens goals).Alike (traceGoals size' others goals) := by
  induction tokens generalizing others goals with
  | nil =>
    obtain rfl := List.map_eq_nil_iff.mp h.symm
    have hsettle := settle_alike (.ofEnd size) (.ofEnd size')
      (fun _ => (none : Option Empty)) rfl rfl goals
    simp only [traceGoals]
    revert hsettle
    generalize settle (.ofEnd size) (fun _ => (none : Option Empty)) goals = first
    generalize settle (.ofEnd size') (fun _ => (none : Option Empty)) goals = second
    obtain ⟨events, settled⟩ := first
    obtain ⟨others, settled'⟩ := second
    rintro ⟨hevents, hsettled⟩
    cases hsettled with
    | met => exact ⟨hevents, .complete⟩
    | refused => exact ⟨hevents, .anomaly⟩
    | @took taken _ => exact taken.elim
  | cons token rest ih =>
    obtain ⟨other, rest', rfl, htoken, hrest⟩ := List.map_eq_cons_iff.mp h.symm
    have hnext : rest'.head?.map Token.lexeme = rest.head?.map Token.lexeme := by
      rw [← List.head?_map, ← List.head?_map, hrest]
    have htake : (fun goal : Goal => goal.take? other rest'.head?) = (·.take? token rest.head?) :=
      funext fun goal => goal.take?_congr htoken hnext
    obtain ⟨hkind, htext⟩ := Lexeme.mk.inj htoken
    have hsettle := settle_alike (.ofToken token) (.ofToken other)
      (·.take? token rest.head?) (congrArg some htoken.symm) htext.symm goals
    simp only [traceGoals, htake]
    revert hsettle
    generalize settle (.ofToken token) (·.take? token rest.head?) goals = first
    generalize settle (.ofToken other) (·.take? token rest.head?) goals = second
    obtain ⟨events, settled⟩ := first
    obtain ⟨others, settled'⟩ := second
    rintro ⟨hevents, hsettled⟩
    cases hsettled with
    | refused => exact ⟨hevents, .anomaly⟩
    | met =>
      refine ⟨hevents, .trailing ?_⟩
      have hlast : ((token :: rest).map Token.lexeme).getLast (by simp) =
          ((other :: rest').map Token.lexeme).getLast (by simp) := by simp only [h]
      simpa only [List.getLast_map] using hlast
    | @took taken below =>
      have htaking : List.Forall₂ Event.AlikeAnywhere (token.taking taken.enters)
          (other.taking taken.enters) := by
        rw [Token.taking, Token.taking, hkind, htext]
        exact List.rel_append (enters_alike _ htext.symm) (.cons (.terminal trivial) .nil)
      exact (ih hrest.symm _).after (List.rel_append hevents htaking)

end GuardedQuery
