import GuardedQuery.Proofs.Source.Reading

/-! # The segments of a source

Sources are built by adding segments, so their size is that of their text, and every
offset up to the size is held by a segment, unless there is no text at all.

- `Source.Built`: the sources that adding segments gives.
- `Source.ofPieces`: the source with given names and texts as its segments.
- `Source.Built.size_eq`: the size of a source is that of its text.
- `Source.Built.locate_offset`: which offsets are resolved.
-/

namespace GuardedQuery

namespace Source

/-- The sources that adding segments gives. -/
inductive Built : Source → Prop where
  | empty : Built empty
  | add {source next : Source} {name : Option String} {content : String} {id : SegmentId}
      (h : Built source) (hadd : source.add name content = .ok (next, id)) : Built next

def addAll (source : Source) (pieces : List (Option String × String)) : Except ReadFault Source :=
  pieces.foldlM (fun source piece => (source.add piece.1 piece.2).map (·.1)) source

def ofPieces (pieces : List (Option String × String)) : Except ReadFault Source :=
  empty.addAll pieces

variable {source : Source}

/-- What adding a segment gives. -/
theorem add_eq_ok {next : Source} {name : Option String} {content : String} {id : SegmentId}
    (h : source.add name content = .ok (next, id)) :
    next.segments = source.segments ++ [⟨name, content, source.size⟩] ∧
      next.size = source.size + content.utf8ByteSize ∧ next.size ≤ maxSize := by
  simp only [add] at h
  split at h
  · cases h
  · cases h
    exact ⟨rfl, rfl, Nat.le_of_not_lt ‹_›⟩

theorem text_add {next : Source} {name : Option String} {content : String} {id : SegmentId}
    (h : source.add name content = .ok (next, id)) : next.text = source.text ++ content := by
  simp [text, (add_eq_ok h).1]

/-- What is located is the offset that was asked for, in the segment that holds it. -/
theorem map_offset_locate (source : Source) (offset : Nat) :
    (source.locate offset).map (·.offset) = (source.segmentAt offset).map fun _ => offset := by
  rw [locate, Option.map_map]
  rfl

namespace Built

theorem size_eq (h : source.Built) : source.size = source.text.utf8ByteSize := by
  induction h with
  | empty => rfl
  | add h hadd ih => rw [text_add hadd, String.utf8ByteSize_append, ← ih, (add_eq_ok hadd).2.1]

theorem size_le (h : source.Built) : source.size ≤ maxSize := by
  cases h with
  | empty => exact Nat.zero_le maxSize
  | add _ hadd => exact (add_eq_ok hadd).2.2

/-- Unless the source is empty, some segment ends where the source ends. -/
theorem exists_stop_eq (h : source.Built) (hsize : source.size ≠ 0) :
    ∃ segment ∈ source.segments, segment.stop = source.size := by
  cases h with
  | empty => exact absurd rfl hsize
  | add h hadd =>
    obtain ⟨hsegments, hnext, -⟩ := add_eq_ok hadd
    rw [hsegments]
    exact ⟨_, List.mem_append_right _ (List.mem_singleton_self _), hnext.symm⟩

/-- Unless the source is empty, some segment is not. -/
theorem exists_not_isEmpty (h : source.Built) (hsize : source.size ≠ 0) :
    ∃ segment ∈ source.segments, segment.isEmpty = false := by
  induction h with
  | empty => exact absurd rfl hsize
  | @add source _ name content _ h hadd ih =>
    obtain ⟨hsegments, hnext, -⟩ := add_eq_ok hadd
    rw [hsegments]
    by_cases hbefore : source.size = 0
    · -- All text of the source is in the segment that was added.
      refine ⟨_, List.mem_append_right _ (List.mem_singleton_self _), ?_⟩
      have hcontent : content.utf8ByteSize ≠ 0 := by omega
      simpa [Segment.isEmpty] using hcontent
    · obtain ⟨segment, hmem, hfull⟩ := ih hbefore
      exact ⟨segment, List.mem_append_left _ hmem, hfull⟩

/-- An offset is held by a segment if it is not behind the end of the source, unless the
source is empty. -/
theorem isSome_segmentAt_iff (h : source.Built) (offset : Nat) :
    (source.segmentAt offset).isSome ↔ source.size ≠ 0 ∧ offset ≤ source.size := by
  by_cases hout : source.size = 0 ∨ source.size < offset
  · rw [segmentAt, if_pos hout]
    simp only [Option.isSome_none, Bool.false_eq_true, false_iff]
    omega
  · obtain ⟨hsize, hoffset⟩ := not_or.mp hout
    refine iff_of_true ?_ ⟨hsize, Nat.le_of_not_lt hoffset⟩
    rw [segmentAt, if_neg hout]
    by_cases hend : offset = source.size
    · obtain ⟨segment, hmem, hfull⟩ := h.exists_not_isEmpty hsize
      rw [if_pos hend, List.find?_isSome]
      exact ⟨segment, List.mem_reverse.mpr hmem, by simp [hfull]⟩
    · obtain ⟨segment, hmem, hstop⟩ := h.exists_stop_eq hsize
      rw [if_neg hend, List.find?_isSome]
      exact ⟨segment, hmem, by rw [hstop]; simp; omega⟩

/-- The offset of a location is the one that was resolved. -/
theorem locate_offset (h : source.Built) (offset : Nat) :
    (source.locate offset).map (·.offset) =
      if source.text.utf8ByteSize ≠ 0 ∧ offset ≤ source.text.utf8ByteSize then some offset
      else none := by
  have hsome := h.isSome_segmentAt_iff offset
  rw [h.size_eq] at hsome
  rw [map_offset_locate]
  cases hsegment : source.segmentAt offset with
  | none =>
    rw [hsegment] at hsome
    rw [if_neg fun hin => absurd (hsome.mpr hin) (by simp)]
    rfl
  | some segment =>
    rw [hsegment] at hsome
    rw [if_pos (hsome.mp rfl)]
    rfl

end Built

theorem addAll_cons (piece : Option String × String) (pieces : List (Option String × String)) :
    source.addAll (piece :: pieces) =
      (source.add piece.1 piece.2).bind fun added => added.1.addAll pieces := by
  cases h : source.add piece.1 piece.2 <;> simp [addAll, h, Except.map, Except.bind, bind]

theorem Built.addAll {next : Source} {pieces : List (Option String × String)}
    (hbuilt : source.Built) (h : source.addAll pieces = .ok next) : next.Built := by
  induction pieces generalizing source with
  | nil =>
    cases h
    exact hbuilt
  | cons piece pieces ih =>
    rw [addAll_cons] at h
    rcases hadd : source.add piece.1 piece.2 with fault | ⟨added, id⟩
    · rw [hadd] at h
      cases h
    · rw [hadd] at h
      exact ih (hbuilt.add hadd) h

/-- The text of a source is that of its segments, one behind the other. -/
theorem text_addAll {next : Source} {pieces : List (Option String × String)}
    (h : source.addAll pieces = .ok next) :
    next.text = source.text ++ String.join (pieces.map (·.2)) := by
  induction pieces generalizing source with
  | nil =>
    cases h
    simp
  | cons piece pieces ih =>
    rw [addAll_cons] at h
    rcases hadd : source.add piece.1 piece.2 with fault | ⟨added, id⟩
    · rw [hadd] at h
      cases h
    · rw [hadd] at h
      rw [ih h, text_add hadd, List.map_cons, String.join_cons, String.append_assoc]

theorem text_ofPieces {pieces : List (Option String × String)} (h : ofPieces pieces = .ok source) :
    source.text = String.join (pieces.map (·.2)) := by
  rw [text_addAll h]
  exact String.empty_append

theorem built_ofPieces {pieces : List (Option String × String)}
    (h : ofPieces pieces = .ok source) : source.Built :=
  Built.empty.addAll h

end Source

end GuardedQuery
