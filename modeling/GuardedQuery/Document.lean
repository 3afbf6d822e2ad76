import GuardedQuery.Source.Reader
import GuardedQuery.Syntax.Dump
import GuardedQuery.Syntax.Guard
import GuardedQuery.Syntax.Run
import GuardedQuery.Token.Lexer

/-! # Documents

From a source to its document: the source is read through the character gate, cut into
tokens and run through the grammar behind the guard.

- `FaultPolicy`: the faults that an unfinished run is turned into.
- `parseText`: parses a text before any observer.
- `Document`: the tree of a parsed source.
- `Document.parseObserved`, `Document.parse`: parse a source under limits.
-/

namespace GuardedQuery

structure FaultPolicy where
  report : Anomaly → Fault
  trailing : Token → Fault

namespace FaultPolicy

def located (source : Source) : FaultPolicy where
  report anomaly := {
    cause := .unexpected anomaly.text anomaly.message
    offending := some anomaly.text
    location := source.locate anomaly.range.start }
  trailing token := {
    cause := .trailing token.text
    offending := some token.text
    location := source.locate token.start }

end FaultPolicy

structure Document where
  children : List Tree

namespace Document

def tree (document : Document) : Tree :=
  .node .document document.children

def text (document : Document) : String :=
  document.tree.text

def operationCount (document : Document) : Nat :=
  document.children.countP (·.isNode .operationDefinition)

def fragmentCount (document : Document) : Nat :=
  document.children.countP (·.isNode .fragmentDefinition)

def dump (document : Document) (style : DumpStyle) : String :=
  document.tree.dump style

end Document

/-- What a parse leaves: the state of its observer, how the run of the grammar ended,
and the document with its number of significant tokens, or the fault. -/
structure ParseReport (σ : Type) where
  state : σ
  ending : Ending
  result : Except Fault (Document × Nat)

def parseText {σ : Type} (policy : FaultPolicy) (observer : Observer σ) (state : σ)
    (text : String) : ParseReport σ :=
  let tokens := lex text
  let (progress, ending) := run observer state text.utf8ByteSize tokens
  { state := progress.state
    ending
    result := match ending with
      | .complete => .ok (⟨assemble tokens progress.events⟩, (significant tokens).length)
      | .trailing last => .error (policy.trailing last)
      | .anomaly anomaly => .error (policy.report anomaly)
      | .vetoed fault => .error fault }

def readText (limits : Limits) (source : Source) : Except Fault String :=
  let feed := match limits.charCeiling? with
    | some ceiling => Feed.gated { reader := source.reader, ceiling }
    | none => Feed.plain source.reader
  match feed.drain.1 with
  | .ok text => .ok text
  | .error fault => .error { cause := .unreadable fault }

namespace Document

/-- Parses a source under limits.  The observer sees every event that the guard admits.
Gives its last state besides the result. -/
def parseObserved {σ : Type} (limits : Limits) (source : Source) (observer : Observer σ)
    (state : σ) : σ × Except Fault Document :=
  match readText limits source with
  | .error fault => (state, .error fault)
  | .ok text =>
    let guarded := Observer.both (Guard.observe source).optional observer
    let report := parseText (.located source) guarded (Guard.ofLimits? limits, state) text
    (report.state.2, report.result.map (·.1))

def parse (limits : Limits) (source : Source) : Except Fault Document :=
  (parseObserved limits source (fun _ _ => ((), none)) ()).2

/-- Parses a source under limits.  Gives the events that the guard admitted besides the
result. -/
def parseRecorded (limits : Limits) (source : Source) : List Event × Except Fault Document :=
  let (seen, result) := parseObserved limits source Observer.recorder []
  (seen.reverse, result)

end Document

end GuardedQuery
