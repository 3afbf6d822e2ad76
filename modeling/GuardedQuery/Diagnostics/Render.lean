import GuardedQuery.Diagnostics.Drawing
import GuardedQuery.Diagnostics.Excerpt

/-! # Rendered diagnostics

A message, the place it is about, the source lines there with carets under what is meant,
and a hint.

- `renderAt`: a message with an excerpt and a hint.
- `renderFault`, `renderFindings`: the diagnostics of a fault and of findings.
-/

namespace GuardedQuery

def messageLines (message : String) : List (List Styled) :=
  match message.splitOn "\n" with
  | [] => []
  | first :: more =>
    [⟨.fault, "error"⟩, ⟨.strong, ": " ++ shownText first⟩] ::
      more.map fun line => [.blanks 7, ⟨.strong, shownText line⟩]

def Excerpt.numberWidth (excerpt : Excerpt) : Nat :=
  let read := Text.takeBytes excerpt.range.stop excerpt.segment.content.toList
  (toString (SourceLine.ofContent read).length).length

def renderAt (colored : Bool) (message : String) (excerpt : Excerpt) (hint : Option String) :
    String :=
  match SourceLine.ofContent excerpt.segment.content.toList with
  | [] => ""
  | first :: rest =>
    let (low, high) := Point.ofRange first rest excerpt.range.start excerpt.range.stop
    let digits := excerpt.numberWidth
    let place := excerpt.segment.displayName ++ ":" ++ toString low.line ++ ":" ++
      toString (low.char + 1)
    let separator : List Styled := [.blanks (digits + 1), ⟨.margin, "|"⟩]
    let drawing :=
      if low.line = high.line then Drawing.onLine (first :: rest) digits low high
      else Drawing.overLines (first :: rest) digits low high
    let lines :=
      messageLines message ++
      [[.blanks digits, ⟨.margin, "--> "⟩, .plain place], separator] ++
      drawing.map Row.line ++
      (match hint with
        | none => []
        | some hint =>
          [separator,
            [.blanks (digits + 1), ⟨.margin, "= "⟩, ⟨.strong, "help"⟩, .plain (": " ++ hint)]])
    String.join (lines.map (Styled.render colored))

def renderMessage (colored : Bool) (message : String) (excerpt : Option Excerpt)
    (hint : Option String) : String :=
  match excerpt with
  | none => "error: " ++ message ++ "\n"
  | some excerpt => renderAt colored message excerpt hint

def renderFault (colored : Bool) (source : Source) (fault : Fault) : String :=
  renderMessage colored fault.message (Excerpt.ofFault? source fault) none

def renderFinding (colored : Bool) (source : Source) (finding : Finding) : String :=
  renderMessage colored finding.message (Excerpt.ofFinding? source finding) finding.kind.hint?

def renderFindings (colored : Bool) (source : Source) (findings : Findings) : String :=
  String.intercalate "\n" (findings.toList.map (renderFinding colored source))

end GuardedQuery
