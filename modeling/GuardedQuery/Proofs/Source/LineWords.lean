import GuardedQuery.Proofs.Source.Adding

/-! # Words of a location

Lines start at one, so a text has one line more than it has line ends, and a source may have as
many bytes as the greatest word.  If each of these bytes ends a line, the word for the last line
overflows.  Columns start at zero and always fit.

- `Text.lineEnds_eq_length_iff`: the texts in which every character ends a line.
- `Segment.OnlyLineEnds`: the segments at whose end the line overflows.
- `Source.Built.lineEnds_eq_maxSize_iff`: no other text has as many lines.
- `Source.locate_words`: lines and columns up to the greatest offset.
-/

namespace GuardedQuery

namespace Text

variable {chars : List Char} {c : Char}

/-! ## Nothing but line ends -/

theorem lineEnds_replicate_return (n : Nat) : lineEnds (List.replicate n '\r') = n := by
  induction n with
  | zero => rw [List.replicate_zero, lineEnds_nil]
  | succ n ih =>
    rw [List.replicate_succ', lineEnds_concat, ih]
    simp [isLineEnd]

theorem lineEnds_feeds_append (feeds : Nat) (chars : List Char) :
    lineEnds (List.replicate feeds '\n' ++ chars) = feeds + lineEnds chars := by
  induction feeds with
  | zero => simp
  | succ feeds ih =>
    rw [List.replicate_succ, List.cons_append, lineEnds_cons (by simp), ih]
    simp only [isLineEnd, decide_true, true_or, if_true]
    omega

/-- Each character ends a line of its own just if no line feed stands behind a carriage
return. -/
theorem lineEnds_eq_length_iff :
    lineEnds chars = chars.length ↔
      ∃ feeds returns, chars = List.replicate feeds '\n' ++ List.replicate returns '\r' := by
  constructor
  · intro h
    induction chars using List.reverseRecOn with
    | nil => exact ⟨0, 0, rfl⟩
    | append_singleton chars c ih =>
      have hlength := lineEnds_le_length chars
      rw [lineEnds_concat, List.length_append, List.length_singleton] at h
      by_cases hpair : c = '\n' ∧ chars.getLast? = some '\r'
      · rw [if_pos hpair] at h
        omega
      · rw [if_neg hpair] at h
        by_cases hend : isLineEnd c
        · rw [if_pos hend] at h
          obtain ⟨feeds, returns, rfl⟩ := ih (by omega)
          rcases of_decide_eq_true hend with rfl | rfl
          · -- In front of a line feed there is no carriage return.
            cases returns with
            | zero => exact ⟨feeds + 1, 0, by simp [List.replicate_succ']⟩
            | succ returns =>
              exact absurd ⟨rfl, by simp [List.replicate_succ', ← List.append_assoc]⟩ hpair
          · exact ⟨feeds, returns + 1, by rw [List.replicate_succ', List.append_assoc]⟩
        · rw [if_neg hend] at h
          omega
  · rintro ⟨feeds, returns, rfl⟩
    rw [lineEnds_feeds_append, lineEnds_replicate_return]
    simp

end Text

/-! ## The last line -/

/-- A segment as long as a source can be, in which each byte ends a line. -/
def Segment.OnlyLineEnds (segment : Segment) : Prop :=
  segment.size = Source.maxSize ∧
    ∃ feeds returns,
      segment.content.toList = List.replicate feeds '\n' ++ List.replicate returns '\r'

namespace Source

variable {source : Source} {segment : Segment} {offset : Nat} {front : List Char}

/-- No more lines end in front of an offset than a word counts, and as many as that only at the
end of a source of line ends. -/
theorem Built.lineEnds_eq_maxSize_iff (h : source.Built)
    (hsegment : source.segmentAt offset = some segment)
    (hfront : Text.InFront (offset - segment.start) segment.content.toList front) :
    Text.lineEnds front = maxSize ↔ offset = maxSize ∧ segment.OnlyLineEnds := by
  have hoffset := h.le_size_of_segmentAt hsegment
  have hstop : segment.start + segment.size ≤ source.size :=
    (h.tiled.bounds segment (mem_of_segmentAt hsegment)).2
  have hsize := h.size_le
  have hbytes : Text.byteLength segment.content.toList = segment.size :=
    Text.byteLength_toList segment.content
  constructor
  · intro hlines
    have hlines' := Text.lineEnds_le_length front
    have hlength := Text.length_le_byteLength front
    have hfits := hfront.fits
    obtain ⟨back, hback⟩ := hfront.leads
    rw [← hback, Text.byteLength_append] at hbytes
    have hlength' := Text.length_le_byteLength back
    obtain rfl : back = [] := List.eq_nil_of_length_eq_zero (by omega)
    rw [List.append_nil] at hback
    refine ⟨by omega, by omega, ?_⟩
    rw [← hback]
    exact Text.lineEnds_eq_length_iff.1 (by omega)
  · rintro ⟨rfl, hfull, hends⟩
    have hwhole := hfront.longest segment.content.toList List.prefix_rfl (by omega)
    obtain rfl := hfront.leads.eq_of_length_le hwhole.length_le
    obtain ⟨feeds, returns, hcontent⟩ := hends
    rw [hcontent, Text.byteLength_append, Text.byteLength_replicate feeds rfl,
      Text.byteLength_replicate returns rfl] at hbytes
    rw [hcontent, Text.lineEnds_feeds_append, Text.lineEnds_replicate_return, hbytes, hfull]

/-- Locating up to the greatest offset.  A line overflows just at the end of a source of line
ends.  Elsewhere lines and columns are exact, and lines are at least one. -/
theorem locate_words (h : source.Built) (hsegment : source.segmentAt offset = some segment) :
    segment.start ≤ offset ∧
    ∃ front, Text.InFront (offset - segment.start) segment.content.toList front ∧
      (source.locate offset = some (.overflowed offset) ↔
        offset = maxSize ∧ segment.OnlyLineEnds) ∧
      (¬ (offset = maxSize ∧ segment.OnlyLineEnds) →
        ∃ location, source.locate offset = some (.counted location) ∧
          location.name = segment.name ∧ location.offset = offset ∧
          location.line.toNat = 1 + Text.lineEnds front ∧ 1 ≤ location.line ∧
          location.column.toNat = (Text.lastLine front).length) := by
  have hfront := Text.inFront_takeBytes (offset - segment.start) segment.content.toList
  generalize Text.takeBytes (offset - segment.start) segment.content.toList = front at hfront
  have hlast := h.lineEnds_eq_maxSize_iff hsegment hfront
  refine ⟨h.start_le_of_segmentAt hsegment, front, hfront, ?overflow, fun hother => ?exact⟩
  case overflow =>
    rw [← hlast, h.locate_eq hsegment hfront]
    by_cases hlines : Text.lineEnds front = maxSize
    · simp [hlines]
    · simp [hlines, Located.counted, Located.overflowed]
  case exact =>
    rw [← hlast] at hother
    have hlength := Nat.le_trans (h.length_inFront_le hsegment hfront) h.size_le
    have hlines := Text.lineEnds_le_length front
    obtain ⟨location, hlocate, hname, hoffset, hline, hcolumn⟩ :=
      h.locate_of_lineEnds_lt hsegment hfront (by omega)
    refine ⟨location, hlocate, hname, hoffset, hline, UInt32.le_iff_toNat_le.2 ?_, hcolumn⟩
    rw [hline]
    exact Nat.le_add_right 1 _

/-- Behind a carriage return, a line feed and another carriage return. -/
theorem locate_words_behind_return :
    let segment : Segment := ⟨none, "a\r\n\r", 0⟩
    let source : Source := ⟨[segment], 4⟩
    source.Built ∧ source.segmentAt 4 = some segment ∧
      ∃ front location, Text.InFront 4 segment.content.toList front ∧
        source.locate 4 = some (.counted location) ∧
        location.line.toNat = 1 + Text.lineEnds front ∧
        location.column.toNat = (Text.lastLine front).length := by
  intro segment source
  have hpieces : ofPieces [(none, "a\r\n\r")] = .ok source := by decide +kernel
  have hbuilt : source.Built := built_ofPieces hpieces
  have hsegment : source.segmentAt 4 = some segment := by decide +kernel
  obtain ⟨-, front, hfront, -, hexact⟩ := locate_words hbuilt hsegment
  have hother : ¬ (4 = maxSize ∧ segment.OnlyLineEnds) := fun h => absurd h.1 (by decide)
  obtain ⟨location, hlocate, -, -, hline, -, hcolumn⟩ := hexact hother
  exact ⟨hbuilt, hsegment, front, location, hfront, hlocate, hline, hcolumn⟩

/-- A source of one segment that is not empty, and its end. -/
theorem ofPieces_singleton (name : Option String) {content : String}
    (hsize : content.utf8ByteSize ≤ maxSize) (hfull : content.utf8ByteSize ≠ 0) :
    ∃ source, ofPieces [(name, content)] = .ok source ∧
      source.segmentAt content.utf8ByteSize = some ⟨name, content, 0⟩ := by
  have hempty : content.isEmpty = false := by simpa using hfull
  refine ⟨⟨[⟨name, content, 0⟩], content.utf8ByteSize⟩, ?added, ?segment⟩
  case added =>
    have hfits : empty.size + content.utf8ByteSize ≤ maxSize := by simpa [empty] using hsize
    rw [ofPieces, addAll_cons, add_of_le hfits]
    simp [addAll, empty, Except.bind, pure, Except.pure]
  case segment =>
    have hin : ¬ (content.utf8ByteSize = 0 ∨ content.utf8ByteSize < content.utf8ByteSize) := by
      omega
    rw [segmentAt, if_neg hin, if_pos rfl]
    simp [Segment.isEmpty, hempty]

/-- The end of as many line feeds as a source can hold.  The text is accepted, and the line of its
end is one more than the greatest word. -/
theorem locate_behind_last_line_feed :
    let feeds := List.replicate maxSize '\n'
    ∃ source, ofPieces [(none, String.ofList feeds)] = .ok source ∧
      source.locate maxSize = some (.overflowed maxSize) ∧
      1 + Text.lineEnds feeds = 4294967296 := by
  intro feeds
  have hlines : Text.lineEnds feeds = maxSize := by
    have hfeeds := Text.lineEnds_feeds_append maxSize []
    rwa [List.append_nil, Text.lineEnds_nil] at hfeeds
  have hbytes : Text.byteLength feeds = maxSize := Text.byteLength_replicate maxSize rfl
  have hsize : (String.ofList feeds).utf8ByteSize = maxSize := by
    rw [← Text.byteLength_toList, String.toList_ofList, hbytes]
  obtain ⟨source, hpieces, hsegment⟩ :=
    ofPieces_singleton none hsize.le (by rw [hsize]; decide)
  rw [hsize] at hsegment
  have hfront : Text.InFront (maxSize - 0) (String.ofList feeds).toList feeds := by
    have htake := Text.takeBytes_append feeds []
    rw [List.append_nil, hbytes] at htake
    simpa [htake] using Text.inFront_takeBytes maxSize feeds
  refine ⟨source, hpieces, ?_, congrArg (1 + ·) hlines⟩
  rw [(built_ofPieces hpieces).locate_eq hsegment hfront, if_pos hlines]

end Source

end GuardedQuery
