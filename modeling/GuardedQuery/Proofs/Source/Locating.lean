import GuardedQuery.Proofs.Source.Segments
import GuardedQuery.Proofs.Text.Lines

/-! # Locating an offset

Segments lie one behind the other, so a byte is in one of them only.  Those in front of this
segment end in front of the byte and those behind it do not, so a search by halves finds it as
well.

- `Segment.Tiled`: segments one behind the other.
- `Segment.search`: a search by halves.
- `Source.segmentAt_search`: it finds the segment of an offset.
- `Source.locate_exact`: the segment, the line and the column of an offset.
-/

namespace GuardedQuery

namespace Segment

def holds (segment : Segment) (offset : Nat) : Bool :=
  segment.start ≤ offset ∧ offset < segment.stop

theorem holds_iff {segment : Segment} {offset : Nat} :
    segment.holds offset ↔ segment.start ≤ offset ∧ offset < segment.stop := by
  simp [holds]

theorem start_le_stop (segment : Segment) : segment.start ≤ segment.stop :=
  Nat.le_add_right segment.start segment.size

/-! ## One behind the other -/

def Tiled : Nat → Nat → List Segment → Prop
  | low, high, [] => low = high
  | low, high, segment :: segments => segment.start = low ∧ Tiled segment.stop high segments

namespace Tiled

variable {low high offset : Nat} {segments more : List Segment}

theorem append_iff :
    Tiled low high (segments ++ more) ↔
      ∃ middle, Tiled low middle segments ∧ Tiled middle high more := by
  induction segments generalizing low with
  | nil => simp [Tiled]
  | cons segment segments ih => simp [Tiled, ih, and_assoc]

theorem le (h : Tiled low high segments) : low ≤ high := by
  induction segments generalizing low with
  | nil => exact Nat.le_of_eq h
  | cons segment segments ih =>
    obtain ⟨rfl, hrest⟩ := h
    exact Nat.le_trans segment.start_le_stop (ih hrest)

/-- Segments that end in front of an offset reach no further. -/
theorem high_le (h : Tiled low high segments) (hlow : low ≤ offset)
    (hstop : ∀ segment ∈ segments, segment.stop ≤ offset) : high ≤ offset := by
  rcases List.eq_nil_or_concat' segments with rfl | ⟨front, last, rfl⟩
  · exact Nat.le_trans (Nat.le_of_eq h.symm) hlow
  · obtain ⟨middle, -, -, hlast⟩ := append_iff.1 h
    exact Nat.le_trans (Nat.le_of_eq hlast.symm) (hstop last (by simp))

/-- What stands in front of a segment and what stands behind it. -/
theorem of_split {segment : Segment} (h : Tiled low high (segments ++ segment :: more)) :
    Tiled low segment.start segments ∧ Tiled segment.stop high more := by
  obtain ⟨middle, hfront, rfl, hback⟩ := append_iff.1 h
  exact ⟨hfront, hback⟩

theorem bounds (h : Tiled low high segments) :
    ∀ segment ∈ segments, low ≤ segment.start ∧ segment.stop ≤ high := by
  intro segment hmem
  obtain ⟨before, after, rfl⟩ := List.append_of_mem hmem
  exact ⟨h.of_split.1.le, h.of_split.2.le⟩

end Tiled

/-! ## A search by halves -/

/-- How many segments end in front of an offset or at it.  Segments below `low` do, those from
`high` on do not, and what is between them is halved. -/
def search (segments : List Segment) (offset low high : Nat) : Nat :=
  if low < high then
    let middle := low + (high - low) / 2
    if segments[middle]?.any (·.stop ≤ offset) then search segments offset (middle + 1) high
    else search segments offset low middle
  else low
termination_by high - low

theorem search_eq {offset low high : Nat} {before after : List Segment}
    (hbefore : ∀ segment ∈ before, segment.stop ≤ offset)
    (hafter : ∀ segment ∈ after, offset < segment.stop)
    (hlow : low ≤ before.length) (hhigh : before.length ≤ high) :
    search (before ++ after) offset low high = before.length := by
  have hpasses (index : Nat) :
      (before ++ after)[index]?.any (·.stop ≤ offset) ↔ index < before.length := by
    by_cases hindex : index < before.length
    · rw [List.getElem?_append_left hindex, List.getElem?_eq_getElem hindex]
      exact iff_of_true (decide_eq_true (hbefore _ (List.getElem_mem hindex))) hindex
    · rw [List.getElem?_append_right (Nat.le_of_not_lt hindex)]
      refine iff_of_false (fun hany => ?_) hindex
      obtain ⟨segment, hsegment, hstop⟩ := Option.any_eq_true _ _ |>.1 hany
      have hbehind := hafter segment (List.mem_of_getElem? hsegment)
      exact absurd (of_decide_eq_true hstop) (Nat.not_le_of_lt hbehind)
  fun_induction search (before ++ after) offset low high with
  | case1 low high hless middle hpass ih =>
    exact ih ((hpasses middle).1 hpass) hhigh
  | case2 low high hless middle hfail ih =>
    exact ih hlow (Nat.le_of_not_lt fun hin => hfail ((hpasses middle).2 hin))
  | case3 low high hdone => omega

end Segment

namespace Source

open Segment (Tiled)

variable {source : Source} {segment : Segment} {offset : Nat}

theorem Built.tiled (h : source.Built) : Tiled 0 source.size source.segments := by
  induction h with
  | empty => rfl
  | add h hadd ih =>
    obtain ⟨hsegments, hsize, -⟩ := add_eq_ok hadd
    rw [hsegments, hsize]
    exact Tiled.append_iff.2 ⟨_, ih, rfl, rfl⟩

/-! ## The segment of an offset -/

/-- The segment of an offset in front of the end, and what is before and behind it. -/
theorem Built.split_of_segmentAt (h : source.Built) (hoffset : offset < source.size)
    (hsegment : source.segmentAt offset = some segment) :
    ∃ before after, source.segments = before ++ segment :: after ∧ segment.holds offset ∧
      (∀ other ∈ before, other.stop ≤ offset) ∧ ∀ other ∈ after, offset < other.start := by
  have hin : ¬ (source.size = 0 ∨ source.size < offset) := by omega
  rw [segmentAt, if_neg hin, if_neg (Nat.ne_of_lt hoffset),
    List.find?_eq_some_iff_append] at hsegment
  obtain ⟨hstop, before, after, hsegments, hbefore⟩ := hsegment
  have hstop : offset < segment.stop := of_decide_eq_true hstop
  have hbefore : ∀ other ∈ before, other.stop ≤ offset := by simpa using hbefore
  have htiled := h.tiled
  rw [hsegments] at htiled
  obtain ⟨hfront, hback⟩ := htiled.of_split
  have hstart := hfront.high_le (Nat.zero_le offset) hbefore
  refine ⟨before, after, hsegments, Segment.holds_iff.2 ⟨hstart, hstop⟩, hbefore, ?_⟩
  exact fun other hmem => Nat.lt_of_lt_of_le hstop (hback.bounds other hmem).1

/-- The segment of an offset in front of the end is the only one that holds the byte. -/
theorem Built.filter_holds (h : source.Built) (hoffset : offset < source.size)
    (hsegment : source.segmentAt offset = some segment) :
    source.segments.filter (·.holds offset) = [segment] := by
  obtain ⟨before, after, hsegments, hholds, hbefore, hafter⟩ :=
    h.split_of_segmentAt hoffset hsegment
  have hfront : before.filter (·.holds offset) = [] := by
    rw [List.filter_eq_nil_iff]
    intro other hmem hother
    exact absurd (Segment.holds_iff.1 hother).2 (Nat.not_lt_of_le (hbefore other hmem))
  have hback : after.filter (·.holds offset) = [] := by
    rw [List.filter_eq_nil_iff]
    intro other hmem hother
    exact absurd (Segment.holds_iff.1 hother).1 (Nat.not_le_of_lt (hafter other hmem))
  simp [hsegments, hfront, hholds, hback]

/-- A search by halves among all segments finds the segment of an offset as well. -/
theorem Built.segmentAt_search (h : source.Built) (hoffset : offset < source.size)
    (hsegment : source.segmentAt offset = some segment) :
    source.segments[Segment.search source.segments offset 0 source.segments.length]? =
      some segment := by
  obtain ⟨before, after, hsegments, hholds, hbefore, hafter⟩ :=
    h.split_of_segmentAt hoffset hsegment
  have hbehind : ∀ other ∈ segment :: after, offset < other.stop := by
    rw [List.forall_mem_cons]
    refine ⟨(Segment.holds_iff.1 hholds).2, fun other hmem => ?_⟩
    exact Nat.lt_of_lt_of_le (hafter other hmem) other.start_le_stop
  have hsearch : Segment.search source.segments offset 0 source.segments.length =
      before.length := by
    rw [hsegments]
    exact Segment.search_eq hbefore hbehind (Nat.zero_le _) (by simp)
  rw [hsearch]
  simp [hsegments]

/-- The segment of the end is the last one that is not empty. -/
theorem getLast?_of_segmentAt (hsegment : source.segmentAt source.size = some segment) :
    (source.segments.filter (!·.isEmpty)).getLast? = some segment := by
  rw [segmentAt] at hsegment
  split at hsegment
  · cases hsegment
  · rw [if_pos rfl, ← List.head?_filter, List.filter_reverse, List.head?_reverse] at hsegment
    exact hsegment

theorem mem_of_segmentAt (hsegment : source.segmentAt offset = some segment) :
    segment ∈ source.segments := by
  rw [segmentAt] at hsegment
  split at hsegment
  · cases hsegment
  · split at hsegment
    · exact List.mem_reverse.1 (List.mem_of_find?_eq_some hsegment)
    · exact List.mem_of_find?_eq_some hsegment

theorem Built.le_size_of_segmentAt (h : source.Built)
    (hsegment : source.segmentAt offset = some segment) : offset ≤ source.size :=
  ((h.isSome_segmentAt_iff offset).1 (by rw [hsegment]; rfl)).2

theorem Built.start_le_of_segmentAt (h : source.Built)
    (hsegment : source.segmentAt offset = some segment) : segment.start ≤ offset := by
  have hoffset := h.le_size_of_segmentAt hsegment
  rcases Nat.eq_or_lt_of_le hoffset with rfl | hless
  · have hmem := List.mem_of_getLast? (getLast?_of_segmentAt hsegment)
    have hstop := (h.tiled.bounds segment (List.mem_of_mem_filter hmem)).2
    exact Nat.le_trans segment.start_le_stop hstop
  · obtain ⟨_, _, _, hholds, _⟩ := h.split_of_segmentAt hless hsegment
    exact (Segment.holds_iff.1 hholds).1

/-! ## Its line and its column -/

/-- There are no more characters in front of an offset than bytes in the source. -/
theorem Built.length_inFront_le (h : source.Built)
    (hsegment : source.segmentAt offset = some segment) {front : List Char}
    (hfront : Text.InFront (offset - segment.start) segment.content.toList front) :
    front.length ≤ source.size := by
  have hoffset := h.le_size_of_segmentAt hsegment
  have hbytes := Text.length_le_byteLength front
  have hfits := hfront.fits
  omega

/-- What is located is what stands in front of the offset in its segment. -/
theorem Built.locate_eq (h : source.Built) (hsegment : source.segmentAt offset = some segment)
    {front : List Char}
    (hfront : Text.InFront (offset - segment.start) segment.content.toList front) :
    source.locate offset = some
      (if Text.lineEnds front = maxSize then .overflowed offset
      else .counted
        { name := segment.name, line := .ofNat (1 + Text.lineEnds front),
          column := .ofNat (Text.lastLine front).length, offset }) := by
  have hlength := Nat.le_trans (h.length_inFront_le hsegment hfront) h.size_le
  have htake : Text.takeBytes (offset - segment.start) segment.content.toList = front :=
    (Text.inFront_takeBytes _ _).unique hfront
  simp only [locate, hsegment, Option.map_some, LineCursor.within_eq, htake,
    LineCursor.behind_eq hlength]
  by_cases hlines : Text.lineEnds front = maxSize
  · rw [if_pos hlines, if_pos hlines]
    rfl
  · rw [if_neg hlines, if_neg hlines]
    rfl

/-- The words of a location are exact, unless the line overflows. -/
theorem Built.locate_of_lineEnds_lt (h : source.Built)
    (hsegment : source.segmentAt offset = some segment) {front : List Char}
    (hfront : Text.InFront (offset - segment.start) segment.content.toList front)
    (hlines : Text.lineEnds front < maxSize) :
    ∃ location, source.locate offset = some (.counted location) ∧
      location.name = segment.name ∧ location.offset = offset ∧
      location.line.toNat = 1 + Text.lineEnds front ∧
      location.column.toNat = (Text.lastLine front).length := by
  have hlength := Nat.le_trans (h.length_inFront_le hsegment hfront) h.size_le
  have hcolumns := Text.length_lastLine_le front
  have hmax : UInt32.size = maxSize + 1 := rfl
  refine ⟨⟨segment.name, .ofNat (1 + Text.lineEnds front), .ofNat (Text.lastLine front).length,
    offset⟩, ?_, rfl, rfl, UInt32.toNat_ofNat_of_lt' (by omega),
    UInt32.toNat_ofNat_of_lt' (by omega)⟩
  rw [h.locate_eq hsegment hfront, if_neg (Nat.ne_of_lt hlines)]

/-- In a source that is not full no line overflows. -/
theorem Built.locate_of_segmentAt (h : source.Built) (hsize : source.size < maxSize)
    (hsegment : source.segmentAt offset = some segment) :
    ∃ front location, Text.InFront (offset - segment.start) segment.content.toList front ∧
      source.locate offset = some (.counted location) ∧
      location.name = segment.name ∧ location.offset = offset ∧
      location.line.toNat = 1 + Text.lineEnds front ∧
      location.column.toNat = (Text.lastLine front).length := by
  have hfront := Text.inFront_takeBytes (offset - segment.start) segment.content.toList
  have hlength := h.length_inFront_le hsegment hfront
  have hlines := Text.lineEnds_le_length
    (Text.takeBytes (offset - segment.start) segment.content.toList)
  exact ⟨_, _, hfront, (h.locate_of_lineEnds_lt hsegment hfront (by omega)).choose_spec⟩

/-- Locating is exact, and so is the search for a segment.  An offset is resolved if it is not
behind the end, unless there is no text at all.  One in front of the end belongs to the only
segment that holds its byte, which a search by halves finds as well, and the end belongs to the
last segment that is not empty.  Lines and columns are those of what stands in front of the
offset in this segment, without a character that the offset is inside of. -/
theorem locate_exact (h : source.Built) (hsize : source.size < maxSize) (offset : Nat) :
    ((source.segmentAt offset).isSome ↔ source.isEmpty = false ∧ offset ≤ source.size) ∧
    ((source.locate offset).isSome ↔ source.isEmpty = false ∧ offset ≤ source.size) ∧
    ∀ segment, source.segmentAt offset = some segment →
      (offset < source.size →
        source.segments.filter (·.holds offset) = [segment] ∧
        source.segments[Segment.search source.segments offset 0 source.segments.length]? =
          some segment) ∧
      (offset = source.size →
        (source.segments.filter (!·.isEmpty)).getLast? = some segment) ∧
      segment.start ≤ offset ∧
      ∃ front location,
        Text.InFront (offset - segment.start) segment.content.toList front ∧
        source.locate offset = some (.counted location) ∧
        location.name = segment.name ∧ location.offset = offset ∧
        location.line.toNat = 1 + Text.lineEnds front ∧
        location.column.toNat = (Text.lastLine front).length := by
  have hsome : (source.segmentAt offset).isSome ↔
      source.isEmpty = false ∧ offset ≤ source.size := by
    rw [h.isSome_segmentAt_iff, isEmpty, beq_eq_false_iff_ne]
  refine ⟨hsome, by rw [locate, Option.isSome_map, hsome], fun segment hsegment => ?_⟩
  refine ⟨fun hless => ⟨h.filter_holds hless hsegment, h.segmentAt_search hless hsegment⟩, ?_,
    h.start_le_of_segmentAt hsegment, ?_⟩
  · rintro rfl
    exact getLast?_of_segmentAt hsegment
  exact h.locate_of_segmentAt hsize hsegment

/-- The second byte of a character behind a carriage return and a line feed.  The segment in
front of this one is empty and starts where it does. -/
theorem locate_inside_character :
    let segment : Segment := ⟨some "b", "y\r\né,", 3⟩
    let source : Source := ⟨[⟨some "a", "x,,", 0⟩, ⟨none, "", 3⟩, segment], 9⟩
    source.Built ∧ source.size < maxSize ∧ source.segmentAt 7 = some segment ∧
      source.segments.filter (·.holds 7) = [segment] ∧
      ∃ front location, Text.InFront 4 segment.content.toList front ∧
        source.locate 7 = some (.counted location) ∧ location.name = some "b" ∧ location.offset = 7 ∧
        location.line.toNat = 1 + Text.lineEnds front ∧
        location.column.toNat = (Text.lastLine front).length := by
  intro segment source
  have hpieces : ofPieces [(some "a", "x,,"), (none, ""), (some "b", "y\r\né,")] = .ok source := by
    decide +kernel
  have hbuilt : source.Built := built_ofPieces hpieces
  have hsize : source.size < maxSize := by decide
  have hsegment : source.segmentAt 7 = some segment := by decide +kernel
  obtain ⟨-, -, hexact⟩ := locate_exact hbuilt hsize 7
  obtain ⟨hless, -, -, hlocation⟩ := hexact segment hsegment
  exact ⟨hbuilt, hsize, hsegment, (hless (by decide)).1, hlocation⟩

end Source

end GuardedQuery
