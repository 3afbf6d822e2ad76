import GuardedQuery.Proofs.Source.Locating
import Mathlib.Algebra.GroupWithZero.Nat
import Mathlib.Data.List.Chain

/-! # Adding segments

A segment is added behind all others or not at all, so the segments lie one behind the other
after any additions, and each is found under its number from then on.  Sizes are kept in 32-bit
words and added in place.  A refusal comes before anything is changed.

- `Source.after`: a source after an addition that may be refused.
- `Source.Contiguous`: segments without gaps between them, from zero to the size.
- `Stored`: a source as it is kept in 32-bit words.
- `Stored.source_addAll`: additions in place come to the same.
- `Source.afterAll_atomic`: what any additions keep.
-/

namespace GuardedQuery

namespace Source

variable {source : Source} {name : Option String} {content : String}
  {piece : Option String × String}

/-! ## One addition -/

theorem add_of_le (h : source.size + content.utf8ByteSize ≤ maxSize) :
    source.add name content =
      .ok (⟨source.segments ++ [⟨name, content, source.size⟩],
        source.size + content.utf8ByteSize⟩, ⟨.ofNat source.segments.length⟩) := by
  simp only [add, if_neg (Nat.not_lt_of_le h)]

theorem add_of_lt (h : maxSize < source.size + content.utf8ByteSize) :
    source.add name content = .error (.sourceTooLarge (source.size + content.utf8ByteSize)) := by
  simp only [add, if_pos h]

/-- The source after a segment with this name and this text was to be added.  If it is refused,
that is the source as it was. -/
def after (source : Source) (piece : Option String × String) : Source :=
  match source.add piece.1 piece.2 with
  | .ok (next, _) => next
  | .error _ => source

theorem after_of_le (h : source.size + piece.2.utf8ByteSize ≤ maxSize) :
    source.after piece =
      ⟨source.segments ++ [⟨piece.1, piece.2, source.size⟩],
        source.size + piece.2.utf8ByteSize⟩ := by
  rw [after, add_of_le h]

theorem after_of_lt (h : maxSize < source.size + piece.2.utf8ByteSize) :
    source.after piece = source := by
  rw [after, add_of_lt h]

theorem Built.after (h : source.Built) (piece : Option String × String) :
    (source.after piece).Built := by
  rcases hadd : source.add piece.1 piece.2 with fault | ⟨next, id⟩
  · rwa [Source.after, hadd]
  · rw [Source.after, hadd]
    exact h.add hadd

/-! ## Any additions -/

def afterAll (source : Source) (pieces : List (Option String × String)) : Source :=
  pieces.foldl after source

def outcomes (source : Source) : List (Option String × String) → List (Except ReadFault SegmentId)
  | [] => []
  | piece :: pieces =>
    (source.add piece.1 piece.2).map (·.2) :: (source.after piece).outcomes pieces

theorem Built.afterAll (h : source.Built) (pieces : List (Option String × String)) :
    (source.afterAll pieces).Built := by
  induction pieces generalizing source with
  | nil => exact h
  | cons piece pieces ih => exact ih (h.after piece)

theorem afterAll_append (source : Source) (pieces more : List (Option String × String)) :
    source.afterAll (pieces ++ more) = (source.afterAll pieces).afterAll more :=
  List.foldl_append

theorem afterAll_singleton (source : Source) (piece : Option String × String) :
    source.afterAll [piece] = source.after piece :=
  rfl

/-! ## Segments stay where they are -/

theorem prefix_after (source : Source) (piece : Option String × String) :
    source.segments <+: (source.after piece).segments := by
  rcases Nat.lt_or_ge maxSize (source.size + piece.2.utf8ByteSize) with hover | hfits
  · simp only [after_of_lt hover, List.prefix_rfl]
  · rw [after_of_le hfits]
    exact List.prefix_append _ _

theorem prefix_afterAll (source : Source) (pieces : List (Option String × String)) :
    source.segments <+: (source.afterAll pieces).segments := by
  induction pieces generalizing source with
  | nil => exact List.prefix_rfl
  | cons piece pieces ih => exact (prefix_after source piece).trans (ih _)

theorem length_after_le (source : Source) (piece : Option String × String) :
    (source.after piece).segments.length ≤ source.segments.length + 1 := by
  rcases Nat.lt_or_ge maxSize (source.size + piece.2.utf8ByteSize) with hover | hfits
  · rw [after_of_lt hover]
    exact Nat.le_succ _
  · rw [after_of_le hfits, List.length_append, List.length_singleton]

theorem length_afterAll_le (source : Source) (pieces : List (Option String × String)) :
    (source.afterAll pieces).segments.length ≤ source.segments.length + pieces.length := by
  induction pieces generalizing source with
  | nil => exact Nat.le_refl _
  | cons piece pieces ih =>
    have hpiece := length_after_le source piece
    have hpieces := ih (source.after piece)
    rw [List.length_cons]
    exact hpieces.trans (by omega)

/-- A segment is found under its number whatever is added from then on. -/
theorem segment?_afterAll {segment : Segment} {id : SegmentId}
    (h : source.segment? id = some segment) (pieces : List (Option String × String)) :
    (source.afterAll pieces).segment? id = some segment := by
  obtain ⟨hindex, hsegment⟩ := List.getElem?_eq_some_iff.1 h
  rw [segment?, List.prefix_iff_getElem?.1 (prefix_afterAll source pieces) _ hindex, hsegment]

/-! ## Without gaps -/

/-- The segments lie one behind the other from zero to the size of the source, which is theirs
and fits a word. -/
structure Contiguous (source : Source) : Prop where
  first : ∀ segment ∈ source.segments.head?, segment.start = 0
  next : source.segments.IsChain fun before segment => segment.start = before.stop
  last : ∀ segment ∈ source.segments.getLast?, segment.stop = source.size
  stop_le : ∀ segment ∈ source.segments, segment.stop ≤ source.size
  size_eq : source.size = (source.segments.map (·.size)).sum
  size_le : source.size ≤ maxSize

end Source

namespace Segment.Tiled

variable {low high : Nat} {segments : List Segment}

theorem start_head? (h : Tiled low high segments) :
    ∀ segment ∈ segments.head?, segment.start = low := by
  cases segments with
  | nil => simp
  | cons first segments => simpa using h.1

theorem isChain (h : Tiled low high segments) :
    segments.IsChain fun before segment => segment.start = before.stop := by
  induction segments generalizing low with
  | nil => exact .nil
  | cons segment segments ih =>
    rw [List.isChain_cons]
    exact ⟨h.2.start_head?, ih h.2⟩

theorem stop_getLast? (h : Tiled low high segments) :
    ∀ segment ∈ segments.getLast?, segment.stop = high := by
  intro segment hlast
  obtain ⟨front, rfl⟩ := List.getLast?_eq_some_iff.1 hlast
  obtain ⟨_, _, _, hstop⟩ := append_iff.1 h
  exact hstop

theorem high_eq (h : Tiled low high segments) : high = low + (segments.map (·.size)).sum := by
  induction segments generalizing low with
  | nil => exact h.symm
  | cons segment segments ih =>
    obtain ⟨rfl, hrest⟩ := h
    rw [ih hrest, List.map_cons, List.sum_cons, stop, Nat.add_assoc]

end Segment.Tiled

theorem Source.Built.contiguous {source : Source} (h : source.Built) : source.Contiguous where
  first := h.tiled.start_head?
  next := h.tiled.isChain
  last := h.tiled.stop_getLast?
  stop_le segment hmem := (h.tiled.bounds segment hmem).2
  size_eq := by rw [h.tiled.high_eq, Nat.zero_add]
  size_le := h.size_le

/-! ## In words -/

structure StoredSegment where
  name : Option String
  content : String
  start : UInt32

structure Stored where
  segments : List StoredSegment := []
  size : UInt32 := 0

namespace Stored

def extendSize? (size : UInt32) (added : UInt64) : Option UInt32 :=
  if added ≤ UInt32.toUInt64 4294967295 then
    let sum := added.toUInt32 + size
    if sum < size then none else some sum
  else none

def add (name : Option String) (content : String) :
    ExceptT ReadFault (StateM Stored) SegmentId := do
  let stored ← get
  let added := UInt64.ofNat content.utf8ByteSize
  match extendSize? stored.size added with
  | none => throw (.sourceTooLarge (min (stored.size.toNat + added.toNat) (UInt64.size - 1)))
  | some size =>
    let id : SegmentId := ⟨.ofNat stored.segments.length⟩
    modify fun stored =>
      { stored with segments := stored.segments ++ [⟨name, content, stored.size⟩] }
    modify fun stored => { stored with size }
    return id

def addAll (pieces : List (Option String × String)) :
    StateM Stored (List (Except ReadFault SegmentId)) :=
  pieces.mapM fun piece => (add piece.1 piece.2).run

def source (stored : Stored) : Source :=
  { segments := stored.segments.map fun segment =>
      ⟨segment.name, segment.content, segment.start.toNat⟩
    size := stored.size.toNat }

variable {stored : Stored} {name : Option String} {content : String}

/-- A sum is exact if it is given at all, and it is given if it fits. -/
theorem extendSize?_eq_some_iff {size sum : UInt32} {added : UInt64} :
    extendSize? size added = some sum ↔ sum.toNat = size.toNat + added.toNat := by
  have hsize := size.toNat_lt
  have hsum := sum.toNat_lt
  have htotal : (added.toUInt32 + size).toNat = (added.toNat % 2 ^ 32 + size.toNat) % 2 ^ 32 := by
    rw [UInt32.toNat_add, UInt64.toNat_toUInt32]
  have hbound : added ≤ UInt32.toUInt64 4294967295 ↔ added.toNat ≤ 4294967295 :=
    UInt64.le_iff_toNat_le
  rw [extendSize?]
  by_cases hadded : added.toNat ≤ 4294967295
  · rw [if_pos (hbound.2 hadded)]
    by_cases hwraps : added.toUInt32 + size < size
    · simp only [if_pos hwraps]
      rw [UInt32.lt_iff_toNat_lt] at hwraps
      exact iff_of_false (by simp) (by omega)
    · simp only [if_neg hwraps, Option.some.injEq, ← UInt32.toNat_inj]
      rw [UInt32.lt_iff_toNat_lt] at hwraps
      omega
  · rw [if_neg (hbound.not.2 hadded)]
    exact iff_of_false (by simp) (by omega)

theorem extendSize?_of_le {size : UInt32} {added : UInt64}
    (h : size.toNat + added.toNat ≤ Source.maxSize) :
    extendSize? size added = some (.ofNat (size.toNat + added.toNat)) := by
  rw [extendSize?_eq_some_iff]
  exact UInt32.toNat_ofNat_of_lt' (Nat.lt_succ_of_le h)

theorem extendSize?_of_lt {size : UInt32} {added : UInt64}
    (h : Source.maxSize < size.toNat + added.toNat) : extendSize? size added = none := by
  rw [Option.eq_none_iff_forall_ne_some]
  intro sum hsum
  have hword : sum.toNat ≤ Source.maxSize := Nat.le_of_lt_succ sum.toNat_lt
  rw [extendSize?_eq_some_iff.1 hsum] at hword
  exact absurd h (Nat.not_lt_of_le hword)

/-- What adding gives back, and what is kept then. -/
theorem run_add (stored : Stored) (name : Option String) (content : String) :
    (add name content).run.run stored =
      match extendSize? stored.size (.ofNat content.utf8ByteSize) with
      | none =>
        (.error (.sourceTooLarge
          (min (stored.size.toNat + (UInt64.ofNat content.utf8ByteSize).toNat) (UInt64.size - 1))),
        stored)
      | some size =>
        (.ok ⟨.ofNat stored.segments.length⟩,
          ⟨stored.segments ++ [⟨name, content, stored.size⟩], size⟩) := by
  simp only [add, ExceptT.run_bind, StateT.run_bind]
  change StateT.run
    (ExceptT.run (match extendSize? stored.size _ with | none => _ | some size => _)) stored = _
  cases extendSize? stored.size (.ofNat content.utf8ByteSize) with
  | none => rfl
  | some size => rfl

/-- A segment that is added in place is added to the source that is kept, and a refusal changes
nothing.  Texts are never so long that a size in bytes wraps around. -/
theorem source_add (stored : Stored) (name : Option String)
    (hbytes : content.utf8ByteSize < 2 ^ 63) :
    ((add name content).run.run stored).1 = (stored.source.add name content).map (·.2) ∧
      ((add name content).run.run stored).2.source = stored.source.after (name, content) := by
  have hadded : (UInt64.ofNat content.utf8ByteSize).toNat = content.utf8ByteSize :=
    UInt64.toNat_ofNat_of_lt' (by rw [UInt64.size]; omega)
  rw [run_add]
  rcases Nat.lt_or_ge Source.maxSize (stored.source.size + content.utf8ByteSize) with hover | hfits
  · have htotal : min (stored.size.toNat + content.utf8ByteSize) (UInt64.size - 1) =
        stored.source.size + content.utf8ByteSize := by
      have hsize := stored.size.toNat_lt
      refine Nat.min_eq_left ?_
      rw [UInt64.size]
      omega
    rw [extendSize?_of_lt (by rwa [hadded]), Source.add_of_lt hover, Source.after_of_lt hover,
      hadded, htotal]
    exact ⟨rfl, rfl⟩
  · have hexact : (UInt32.ofNat (stored.size.toNat + content.utf8ByteSize)).toNat =
        stored.size.toNat + content.utf8ByteSize :=
      UInt32.toNat_ofNat_of_lt' (Nat.lt_succ_of_le hfits)
    rw [extendSize?_of_le (by rwa [hadded]), Source.add_of_le hfits, Source.after_of_le hfits,
      hadded]
    refine ⟨by simp [Except.map, source], ?_⟩
    simp only [source, hexact, List.map_append, List.map_cons, List.map_nil]

theorem run_addAll_cons (stored : Stored) (piece : Option String × String)
    (pieces : List (Option String × String)) :
    (addAll (piece :: pieces)).run stored =
      let (outcome, next) := (add piece.1 piece.2).run.run stored
      let (outcomes, last) := (addAll pieces).run next
      (outcome :: outcomes, last) := by
  rw [addAll, List.mapM_cons]
  rfl

/-- Segments that are added in place are added to the source that is kept, with the same
outcomes. -/
theorem source_addAll (stored : Stored) {pieces : List (Option String × String)}
    (hbytes : ∀ piece ∈ pieces, piece.2.utf8ByteSize < 2 ^ 63) :
    ((addAll pieces).run stored).1 = stored.source.outcomes pieces ∧
      ((addAll pieces).run stored).2.source = stored.source.afterAll pieces := by
  induction pieces generalizing stored with
  | nil => exact ⟨rfl, rfl⟩
  | cons piece pieces ih =>
    rw [List.forall_mem_cons] at hbytes
    obtain ⟨houtcome, hnext⟩ := stored.source_add piece.1 hbytes.1
    obtain ⟨houtcomes, hlast⟩ := ih ((add piece.1 piece.2).run.run stored).2 hbytes.2
    rw [hnext] at houtcomes hlast
    rw [run_addAll_cons]
    exact ⟨congrArg₂ List.cons houtcome houtcomes, hlast⟩

end Stored

/-! ## Any additions, from the start -/

namespace Source

/-- Additions from the start, some of which may be refused, leave segments without gaps.  They
come to the same in 32-bit words.  A segment that fits is found under its number whatever is
added from then on.  One that does not fit is refused with the size that there would be, and
everything is as if nobody had asked for it. -/
theorem afterAll_atomic {pieces : List (Option String × String)}
    (hcount : pieces.length < UInt32.size)
    (hbytes : ∀ piece ∈ pieces, piece.2.utf8ByteSize < 2 ^ 63) :
    (empty.afterAll pieces).Contiguous ∧
    ((Stored.addAll pieces).run {}).1 = empty.outcomes pieces ∧
    ((Stored.addAll pieces).run {}).2.source = empty.afterAll pieces ∧
    ∀ before name content later, pieces = before ++ (name, content) :: later →
      let source := empty.afterAll before
      let total := (source.segments.map (·.size)).sum + content.utf8ByteSize
      (total ≤ maxSize → ∃ id,
        source.add name content = .ok (source.after (name, content), id) ∧
        (empty.afterAll pieces).segment? id = some ⟨name, content, source.size⟩) ∧
      (maxSize < total →
        source.add name content = .error (.sourceTooLarge total) ∧
        empty.afterAll pieces = empty.afterAll (before ++ later)) := by
  obtain ⟨houtcomes, hstored⟩ := Stored.source_addAll {} hbytes
  refine ⟨(Built.empty.afterAll pieces).contiguous, houtcomes, hstored, ?_⟩
  rintro before name content later rfl source total
  have hsplit : empty.afterAll (before ++ (name, content) :: later) =
      (source.after (name, content)).afterAll later := afterAll_append _ _ _
  have htotal : total = source.size + content.utf8ByteSize := by
    rw [(Built.empty.afterAll before).contiguous.size_eq]
  rw [htotal, hsplit]
  refine ⟨fun hfits => ?_, fun hover => ?_⟩
  · refine ⟨⟨.ofNat source.segments.length⟩, ?_, segment?_afterAll ?_ later⟩
    · rw [add_of_le hfits, after_of_le hfits]
    · have hlength : source.segments.length ≤ before.length :=
        (length_afterAll_le empty before).trans_eq (Nat.zero_add _)
      have hindex : (UInt32.ofNat source.segments.length).toNat = source.segments.length := by
        refine UInt32.toNat_ofNat_of_lt' ?_
        rw [List.length_append] at hcount
        omega
      rw [segment?, hindex, after_of_le hfits, List.getElem?_concat_length]
  · rw [after_of_lt hover, afterAll_append]
    exact ⟨add_of_lt hover, rfl⟩

/-- A source that is full, with a segment that does not fit and one without text behind it. -/
theorem afterAll_atomic_full :
    let full := String.ofList (List.replicate maxSize 'a')
    let pieces := [(some "a", full), (none, "b"), (some "c", "")]
    pieces.length < UInt32.size ∧ (∀ piece ∈ pieces, piece.2.utf8ByteSize < 2 ^ 63) ∧
      (empty.afterAll pieces).Contiguous ∧
      (empty.afterAll [(some "a", full)]).add none "b" = .error (.sourceTooLarge 4294967296) ∧
      ∃ id, (empty.afterAll pieces).segment? id = some ⟨some "c", "", maxSize⟩ := by
  have hsize : (String.ofList (List.replicate maxSize 'a')).utf8ByteSize = maxSize := by
    rw [← Text.byteLength_toList, String.toList_ofList, Text.byteLength_replicate maxSize rfl]
  -- From here on only the size of the text matters.
  generalize String.ofList (List.replicate maxSize 'a') = full at hsize ⊢
  have hcount : [(some "a", full), (none, "b"), (some "c", "")].length < UInt32.size := by
    simp [UInt32.size]
  have hbytes : ∀ piece ∈ [(some "a", full), (none, "b"), (some "c", "")],
      piece.2.utf8ByteSize < 2 ^ 63 := by
    simp only [List.forall_mem_cons, hsize]
    exact ⟨by decide, by decide, by decide, by simp⟩
  let first : Source := ⟨[⟨some "a", full, 0⟩], maxSize⟩
  have hfirst : empty.afterAll [(some "a", full)] = first := by
    have hfits : empty.size + full.utf8ByteSize ≤ maxSize := by
      rw [hsize]
      exact Nat.le_of_eq (Nat.zero_add maxSize)
    rw [afterAll_singleton, after_of_le hfits, hsize]
    exact congrArg (Source.mk _) (Nat.zero_add maxSize)
  have hsecond : empty.afterAll [(some "a", full), (none, "b")] = first := by
    have hover : maxSize < maxSize + "b".utf8ByteSize := by decide
    have hrest : first.after (none, "b") = first := after_of_lt hover
    have happend := afterAll_append empty [(some "a", full)] [(none, "b")]
    rwa [afterAll_singleton, hfirst, hrest] at happend
  have hsum : (first.segments.map (·.size)).sum = maxSize := by
    simp only [first, List.map_cons, List.map_nil, List.sum_singleton, Segment.size, hsize]
  obtain ⟨hcontiguous, -, -, hcalls⟩ := afterAll_atomic hcount hbytes
  refine ⟨hcount, hbytes, hcontiguous, ?refused, ?found⟩
  case refused =>
    obtain ⟨-, hrefused⟩ := hcalls [(some "a", full)] none "b" [(some "c", "")] rfl
    have htotal : maxSize + "b".utf8ByteSize = 4294967296 := by decide
    rw [hfirst, hsum, htotal] at hrefused
    rw [hfirst]
    exact (hrefused (by decide)).1
  case found =>
    obtain ⟨hadded, -⟩ := hcalls [(some "a", full), (none, "b")] (some "c") "" [] rfl
    rw [hsecond, hsum] at hadded
    obtain ⟨id, -, hsegment⟩ := hadded (by decide)
    exact ⟨id, hsegment⟩

end Source

end GuardedQuery
