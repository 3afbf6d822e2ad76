import GuardedQuery.Text.Bytes

/-! # Sources

A source is one logical text stitched together from named segments.  Offsets count
UTF-8 bytes from the start of the first segment and fit 32 bits.

- `Segment`: a piece of text, its name and where it starts.
- `Source`: the segments in order and their total size.
- `Source.add`: appends a segment, or refuses it when offsets would no longer fit.
- `Source.segmentAt`: the segment that holds an offset.
-/

namespace GuardedQuery

inductive ReadFault where
  | tooManyCharacters (ceiling : UInt32)
  | sourceTooLarge (size : Nat)
deriving Repr, DecidableEq

namespace ReadFault

def message : ReadFault → String
  | tooManyCharacters ceiling =>
    "More than " ++ toString ceiling ++ " characters have been presented. " ++
      "To prevent Denial Of Service attacks, parsing has been cancelled."
  | sourceTooLarge size =>
    "Source of " ++ toString size ++ " bytes exceeds the 4 GiB offset range."

end ReadFault

structure Segment where
  name : Option String
  content : String
  start : Nat
deriving Repr, DecidableEq

namespace Segment

def displayName (segment : Segment) : String :=
  segment.name.getD "<query>"

def size (segment : Segment) : Nat :=
  segment.content.utf8ByteSize

def stop (segment : Segment) : Nat :=
  segment.start + segment.size

def isEmpty (segment : Segment) : Bool :=
  segment.content.isEmpty

end Segment

structure SegmentId where
  index : UInt32 := 0
deriving Repr, DecidableEq

structure Source where
  segments : List Segment := []
  size : Nat := 0
deriving Repr, DecidableEq

namespace Source

def maxSize : Nat := 4294967295

def empty : Source := {}

/-- Appends a segment after all others.  Refused when the total size would pass
`maxSize`. -/
def add (source : Source) (name : Option String) (content : String) :
    Except ReadFault (Source × SegmentId) :=
  let size := source.size + content.utf8ByteSize
  if maxSize < size then .error (.sourceTooLarge size)
  else .ok
    ({ segments := source.segments ++ [{ name, content, start := source.size }], size },
      ⟨.ofNat source.segments.length⟩)

def single (name : Option String) (content : String) : Except ReadFault Source :=
  (empty.add name content).map (·.1)

def isEmpty (source : Source) : Bool :=
  source.size == 0

def text (source : Source) : String :=
  source.segments.foldl (fun text segment => text ++ segment.content) ""

def segment? (source : Source) (id : SegmentId) : Option Segment :=
  source.segments[id.index.toNat]?

/-- The segment that holds `offset`.  The offset at the end of the source belongs to
the last segment that is not empty; an empty source holds no offset. -/
def segmentAt (source : Source) (offset : Nat) : Option Segment :=
  if source.size = 0 ∨ source.size < offset then none
  -- Nothing starts at the end, so it is the last segment with a byte that ends there.
  else if offset = source.size then source.segments.reverse.find? (!·.isEmpty)
  else source.segments.find? (offset < ·.stop)

end Source

end GuardedQuery
