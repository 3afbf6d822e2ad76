import GuardedQuery.Fault
import GuardedQuery.Validation.Finding

/-! # Excerpts

The part of one segment that a message is about, in bytes from the start of the segment.

- `Excerpt`: a segment and a range in it.
- `Excerpt.ofFault?`: from where a fault is located and the text it was raised at.
- `Excerpt.ofFinding?`: from the range of a finding.
-/

namespace GuardedQuery

structure Excerpt where
  segment : Segment
  range : ByteRange
deriving Repr, DecidableEq

namespace Excerpt

/-- Cuts a range off at the end of the content, and widens it to one character if it is
empty and a character follows. -/
def clamp (range : ByteRange) (content : List Char) : ByteRange :=
  let size := Text.byteLength content
  let start := min range.start size
  let stop := min range.stop size
  if start ≠ stop then ⟨start, stop⟩
  else
    match (Text.dropBytes? start content).bind (·.head?) with
    | some c => ⟨start, start + c.utf8Size⟩
    | none => .empty start

/-- The excerpt at an offset of the source: the offending text if it stands there,
otherwise the character there. -/
def atOffset? (source : Source) (offset : Nat) (offending : Option String) : Option Excerpt :=
  (source.segmentAt offset).map fun segment =>
    let content := segment.content.toList
    let start := offset - segment.start
    -- A token that continues in the next segment does not stand in this one.
    let stands (text : String) : Bool :=
      (Text.dropBytes? start content).any (text.toList.isPrefixOf ·)
    let size := ((offending.filter stands).map (·.utf8ByteSize)).getD 0
    { segment, range := clamp ⟨start, start + size⟩ content }

def ofFault? (source : Source) (fault : Fault) : Option Excerpt :=
  fault.location.bind fun located => atOffset? source located.offset fault.offending

def ofFinding? (source : Source) (finding : Finding) : Option Excerpt :=
  (source.segmentAt finding.range.start).map fun segment =>
    let start := finding.range.start - segment.start
    let size := finding.range.stop - finding.range.start
    { segment, range := clamp ⟨start, start + size⟩ segment.content.toList }

end Excerpt

end GuardedQuery
