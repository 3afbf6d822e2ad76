import GuardedQuery.Proofs.Source.Adding
import GuardedQuery.Proofs.Source.Cursor

/-! # Cuts of a source and of its segments

A cut of the whole text that falls into a segment is a cut of that segment, so what starts
between two characters of the one starts between two characters of the other.

- `Text.exists_between`: the later of two cuts of a text cuts what stands behind the earlier.
- `Source.Built.exists_around`: the text before and behind a segment.
- `Source.Built.exists_cut`: a cut of the text that falls into a segment.
- `Source.Built.stop_of_segmentAt`: the segment of the end stops there.
-/

namespace GuardedQuery

namespace Text

variable {front back lead tail : List Char}

/-- The later of two cuts of a text cuts what stands behind the earlier one. -/
theorem exists_between (h : front ++ back = lead ++ tail)
    (hle : byteLength front ≤ byteLength lead) :
    ∃ between, lead = front ++ between ∧ back = between ++ tail := by
  rcases List.append_eq_append_iff.1 h with hbetween | ⟨more, rfl, rfl⟩
  · exact hbetween
  · -- The cuts are at one place, for no character is without bytes.
    rw [byteLength_append] at hle
    have hnone : byteLength more = 0 := by omega
    rw [byteLength_eq_zero_iff] at hnone
    subst hnone
    exact ⟨[], by simp, by simp⟩

end Text

open Text (byteLength)

theorem Token.stop_eq (token : Token) :
    token.stop = token.start + byteLength token.text.toList := by
  rw [Text.byteLength_toList, stop]

theorem Segment.stop_eq (segment : Segment) :
    segment.stop = segment.start + byteLength segment.content.toList := by
  rw [Text.byteLength_toList, stop, size]

theorem Segment.byteLength_contents (segments : List Segment) :
    byteLength (segments.flatMap (·.content.toList)) = (segments.map (·.size)).sum := by
  induction segments with
  | nil => rfl
  | cons segment segments ih =>
    rw [List.flatMap_cons, Text.byteLength_append, ih, Text.byteLength_toList, List.map_cons,
      List.sum_cons, size]

namespace Source

variable {source : Source} {segment : Segment} {offset : Nat}

theorem toList_text_eq_flatMap (source : Source) :
    source.text.toList = source.segments.flatMap (·.content.toList) := by
  rw [source.text_toList, List.flatMap_def]
  rfl

/-- The text before and behind a segment. -/
theorem Built.exists_around (h : source.Built) (hmem : segment ∈ source.segments) :
    ∃ before after, source.text.toList = before ++ (segment.content.toList ++ after) ∧
      byteLength before = segment.start := by
  obtain ⟨earlier, later, hsegments⟩ := List.append_of_mem hmem
  have htiled := h.tiled
  rw [hsegments] at htiled
  refine ⟨earlier.flatMap (·.content.toList), later.flatMap (·.content.toList), ?_, ?_⟩
  · rw [toList_text_eq_flatMap, hsegments, List.flatMap_append, List.flatMap_cons]
  · rw [Segment.byteLength_contents, htiled.of_split.1.high_eq, Nat.zero_add]

/-- A cut of the text that falls into a segment cuts the segment there. -/
theorem Built.exists_cut (h : source.Built) (hmem : segment ∈ source.segments)
    {front back : List Char} (htext : source.text.toList = front ++ back)
    (hlow : segment.start ≤ byteLength front) (hhigh : byteLength front ≤ segment.stop) :
    ∃ lead tail after, segment.content.toList = lead ++ tail ∧ back = tail ++ after ∧
      byteLength lead = byteLength front - segment.start := by
  obtain ⟨before, after, haround, hbefore⟩ := h.exists_around hmem
  rw [haround] at htext
  obtain ⟨lead, rfl, hlead⟩ := Text.exists_between htext (by omega)
  rw [Text.byteLength_append] at hhigh ⊢
  rw [segment.stop_eq] at hhigh
  obtain ⟨tail, htail, hback⟩ := Text.exists_between hlead.symm (by omega)
  exact ⟨lead, tail, after, htail, hback, by omega⟩

/-- The segment of the end stops there: behind it there are only empty ones. -/
theorem Built.stop_of_segmentAt (h : source.Built)
    (hsegment : source.segmentAt source.size = some segment) : segment.stop = source.size := by
  have hfind : source.segments.reverse.find? (!·.isEmpty) = some segment := by
    rw [segmentAt] at hsegment
    split at hsegment
    · cases hsegment
    · rwa [if_pos rfl] at hsegment
  obtain ⟨-, later, earlier, hreverse, hempty⟩ := List.find?_eq_some_iff_append.1 hfind
  have hsegments : source.segments = earlier.reverse ++ segment :: later.reverse := by
    rw [← source.segments.reverse_reverse, hreverse]
    simp
  have hnone : later.reverse.flatMap (·.content.toList) = [] := by
    rw [List.flatMap_eq_nil_iff]
    intro other hother
    simpa [Segment.isEmpty] using hempty other (List.mem_reverse.1 hother)
  have htiled := h.tiled
  rw [hsegments] at htiled
  have hend := htiled.of_split.2.high_eq
  rw [← Segment.byteLength_contents, hnone, Text.byteLength_nil, Nat.add_zero] at hend
  exact hend.symm

theorem Built.lt_stop_of_segmentAt (h : source.Built) (hoffset : offset < source.size)
    (hsegment : source.segmentAt offset = some segment) : offset < segment.stop := by
  obtain ⟨_, _, _, hholds, _⟩ := h.split_of_segmentAt hoffset hsegment
  exact (Segment.holds_iff.1 hholds).2

end Source

end GuardedQuery
