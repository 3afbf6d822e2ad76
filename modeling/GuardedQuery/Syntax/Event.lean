import GuardedQuery.Fault
import GuardedQuery.Text.Quoted
import GuardedQuery.Token.Basic

/-! # Parse events

A parse reports every rule it enters and leaves, every significant token it takes and
the anomaly that ends it, in document order.  Observers see each event before it has
any effect and may veto it.

- `Anomaly`: where and why a parse cannot go on.
- `Event`: what is reported.
- `Observer`: sees events one by one and may raise a fault.
- `Observer.list`: several observers in order.
- `Tap`: an observer that keeps what it sees and may veto one event.
-/

namespace GuardedQuery

def endOfInputText : String := "<EOF>"

structure Anomaly where
  range : ByteRange
  text : String
  message : String
deriving Repr, DecidableEq

inductive Event where
  | enter (rule : NodeKind) (range : ByteRange) (text : String)
  | exit (rule : NodeKind)
  | terminal (kind : TokenKind) (range : ByteRange) (text : String)
  /-- The grammar cannot go on at the given token. -/
  | anomaly (anomaly : Anomaly)
deriving Repr, DecidableEq

namespace Event

def display : Event → String
  | enter rule range text =>
    "enter " ++ rule.label ++ " " ++ range.display ++ " " ++ Text.quoted text
  | exit rule => "exit " ++ rule.label
  | terminal kind range text =>
    "terminal " ++ kind.label ++ " " ++ range.display ++ " " ++ Text.quoted text
  | anomaly ⟨range, text, message⟩ =>
    "anomaly " ++ range.display ++ " " ++ Text.quoted text ++ ": " ++ message

end Event

/-- Sees an event in a state: gives the next state and the fault, if it vetoes. -/
abbrev Observer (σ : Type) := σ → Event → σ × Option Fault

namespace Observer

def recorder : Observer (List Event) := fun seen event => (event :: seen, none)

def both {σ τ : Type} (first : Observer σ) (second : Observer τ) : Observer (σ × τ) :=
  fun (s, t) event =>
    match first s event with
    | (s, some fault) => ((s, t), some fault)
    | (s, none) =>
      let (t, veto) := second t event
      ((s, t), veto)

def either {σ τ : Type} (left : Observer σ) (right : Observer τ) : Observer (σ ⊕ τ)
  | .inl s, event => let (s, veto) := left s event; (.inl s, veto)
  | .inr t, event => let (t, veto) := right t event; (.inr t, veto)

def optional {σ : Type} (observer : Observer σ) : Observer (Option σ)
  | none, _ => (none, none)
  | some s, event => let (s, veto) := observer s event; (some s, veto)

def list {σ : Type} (observer : Observer σ) : Observer (List σ)
  | [], _ => ([], none)
  | s :: rest, event =>
    match observer s event with
    | (s, some fault) => (s :: rest, some fault)
    | (s, none) =>
      let (rest, veto) := list observer rest event
      (s :: rest, veto)

end Observer

/-- An observer that keeps the events it sees, the latest first, and vetoes one of
them. -/
structure Tap where
  /-- Which event it vetoes, counted from one. -/
  vetoAt : Option Nat
  fault : Fault
  seen : List Event := []

namespace Tap

def observe : Observer Tap := fun tap event =>
  let tap := { tap with seen := event :: tap.seen }
  (tap, if tap.vetoAt = some tap.seen.length then some tap.fault else none)

end Tap

end GuardedQuery
