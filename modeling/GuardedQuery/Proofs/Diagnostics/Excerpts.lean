import GuardedQuery.Diagnostics.Excerpt
import GuardedQuery.Proofs.Parse.FaultPlaces
import GuardedQuery.Proofs.Source.Slices
import GuardedQuery.Proofs.Validation.Placement

/-! # What an excerpt shows

The range that is drawn lies within one segment and between characters.  It is that of the
offending token or of the finding as far as the segment reaches.

- `Text.IsCut`: a number of bytes that ends between characters.
- `Excerpt.Aligned`: an excerpt that can be drawn.
- `Excerpt.PointsAt`, `Excerpt.Shows`: what the excerpt of a fault and of a finding is about.
- `Excerpt.pointsAt_of_place`: the excerpt at a place of the source.
- `Excerpt.ofFinding?_of_spans`: the excerpt of a finding that spans tokens.
- `Excerpt.aligned_excerpts`: the faults and the findings of a source.
-/

namespace GuardedQuery

open Text (byteLength dropBytes?)
open ByteRange (Spans)

/-! ## Cuts -/

def Text.IsCut (n : Nat) (chars : List Char) : Prop :=
  ∃ front back, chars = front ++ back ∧ byteLength front = n

namespace Excerpt

variable {range : ByteRange} {content lead shown rest : List Char} {segment : Segment}

/-- A range that starts within the content and is not empty is cut off at the end. -/
theorem clamp_of_lt (hstart : range.start < byteLength content) (hstop : range.start < range.stop) :
    clamp range content = ⟨range.start, min range.stop (byteLength content)⟩ := by
  have hne : min range.start (byteLength content) ≠ min range.stop (byteLength content) := by omega
  simp only [clamp, if_pos hne]
  rw [Nat.min_eq_left (Nat.le_of_lt hstart)]

theorem clamp_shown (lead rest : List Char) (hshown : shown ≠ []) :
    clamp ⟨byteLength lead, byteLength lead + byteLength shown⟩ (lead ++ (shown ++ rest)) =
      ⟨byteLength lead, byteLength lead + byteLength shown⟩ := by
  have hne := mt Text.byteLength_eq_zero_iff.1 hshown
  rw [clamp_of_lt] <;> simp only [Text.byteLength_append]
  · rw [Nat.min_eq_left (by omega)]
  · omega
  · omega

/-- An empty range is widened to the character behind it, if there is one. -/
theorem clamp_empty (front back : List Char) :
    clamp (.empty (byteLength front)) (front ++ back) =
      ⟨byteLength front, byteLength front + (back.head?.map Char.utf8Size).getD 0⟩ := by
  have hle : byteLength front ≤ byteLength (front ++ back) := by
    rw [Text.byteLength_append]
    omega
  simp only [clamp, ByteRange.empty, Nat.min_eq_left hle, ne_eq, not_true_eq_false, if_false,
    Text.dropBytes?_append, Option.bind_some]
  cases back <;> rfl

/-- The range can be drawn: it lies within the content, and both ends are between characters. -/
structure Aligned (excerpt : Excerpt) : Prop where
  ordered : excerpt.range.start ≤ excerpt.range.stop
  start : Text.IsCut excerpt.range.start excerpt.segment.content.toList
  stop : Text.IsCut excerpt.range.stop excerpt.segment.content.toList

theorem aligned_of_split (h : segment.content.toList = lead ++ (shown ++ rest)) :
    Aligned ⟨segment, ⟨byteLength lead, byteLength lead + byteLength shown⟩⟩ where
  ordered := Nat.le_add_right _ _
  start := ⟨lead, shown ++ rest, h, rfl⟩
  stop := ⟨lead ++ shown, rest, by rw [h, List.append_assoc], Text.byteLength_append _ _⟩

end Excerpt

/-! ## Tokens and segments -/

namespace Source

variable {source : Source} {segment : Segment} {token : Token} {range : ByteRange}

theorem start_lt_size (h : source.Built) (htoken : token ∈ lex source.text) :
    token.start < source.size := by
  obtain ⟨front, back, htext, hstart⟩ := (lex_tiles source.text).slice htoken
  have hne : token.text.utf8ByteSize ≠ 0 := by
    simpa using (lex_tiles source.text).nonempty token htoken
  rw [h.size_eq, htext, String.utf8ByteSize_append, String.utf8ByteSize_append]
  omega

/-- The text up to the start of a token, and from there on. -/
theorem exists_cut_of_token (htoken : token ∈ lex source.text) :
    ∃ front back, source.text.toList = front ++ (token.text.toList ++ back) ∧
      byteLength front = token.start := by
  obtain ⟨front, back, htext, hstart⟩ := (lex_tiles source.text).slice htoken
  refine ⟨front.toList, back.toList, ?_, ?_⟩
  · rw [htext, String.toList_append, String.toList_append, List.append_assoc]
  · rw [Text.byteLength_toList, hstart]

theorem Built.holds_of_token (h : source.Built) (htoken : token ∈ lex source.text)
    (hsegment : source.segmentAt token.start = some segment) : segment.holds token.start := by
  rw [Segment.holds_iff]
  exact ⟨h.start_le_of_segmentAt hsegment,
    h.lt_stop_of_segmentAt (start_lt_size h htoken) hsegment⟩

/-- What stands in the segment from the start of a token on. -/
theorem Built.exists_lead (h : source.Built) (htoken : token ∈ lex source.text)
    (hsegment : source.segmentAt token.start = some segment) :
    ∃ lead tail after back, segment.content.toList = lead ++ tail ∧
      token.text.toList ++ back = tail ++ after ∧
      byteLength lead = token.start - segment.start ∧
      byteLength tail = segment.stop - token.start := by
  obtain ⟨front, back, hcut, hfront⟩ := exists_cut_of_token htoken
  obtain ⟨hlow, hless⟩ := Segment.holds_iff.1 (h.holds_of_token htoken hsegment)
  obtain ⟨lead, tail, after, hcontent, hback, hlead⟩ :=
    h.exists_cut (mem_of_segmentAt hsegment) hcut (by omega) (by omega)
  refine ⟨lead, tail, after, back, hcontent, hback, by rw [hlead, hfront], ?_⟩
  have hsize := congrArg byteLength hcontent
  rw [Text.byteLength_append] at hsize
  rw [segment.stop_eq] at hless ⊢
  omega

/-- What stands in the segment of a range over tokens, as far as the segment reaches. -/
theorem Built.exists_shown (h : source.Built) (hspans : range.Spans (significant (lex source.text)))
    (hsegment : source.segmentAt range.start = some segment) :
    segment.holds range.start ∧ ∃ lead shown rest,
      segment.content.toList = lead ++ (shown ++ rest) ∧
      byteLength lead = range.start - segment.start ∧
      byteLength lead + byteLength shown = min range.stop segment.stop - segment.start := by
  have hstop := hspans.start_lt_stop
  obtain ⟨first, hfirst, last, hlast, rfl⟩ := hspans.exists_tokens
  have hfirst := List.mem_of_mem_filter hfirst
  have hlast := List.mem_of_mem_filter hlast
  have hholds := h.holds_of_token hfirst hsegment
  obtain ⟨hlow, hless⟩ := Segment.holds_iff.1 hholds
  obtain ⟨lead, tail, -, -, hcontent, -, hlead, htail⟩ := h.exists_lead hfirst hsegment
  refine ⟨hholds, ?_⟩
  simp only at hstop hlow hless ⊢
  rcases Nat.lt_or_ge segment.stop last.stop with hbeyond | hwithin
  · -- The segment ends first.
    exact ⟨lead, tail, [], by rw [List.append_nil, hcontent], hlead, by omega⟩
  · -- The last token ends in the segment, which is cut there too.
    obtain ⟨front, back, hcut, hfront⟩ := exists_cut_of_token hlast
    have hend : byteLength (front ++ last.text.toList) = last.stop := by
      rw [Text.byteLength_append, hfront, last.stop_eq]
    rw [← List.append_assoc] at hcut
    obtain ⟨longer, rest, after, hlonger, -, hsize⟩ :=
      h.exists_cut (mem_of_segmentAt hsegment) hcut (by omega) (by omega)
    obtain ⟨shown, rfl, rfl⟩ := Text.exists_between (hcontent.symm.trans hlonger) (by omega)
    rw [Text.byteLength_append] at hsize
    exact ⟨lead, shown, rest, hcontent, hlead, by omega⟩

end Source

namespace Excerpt

variable {source : Source} {segment : Segment} {token : Token} {lead tail : List Char}

/-! ## Faults -/

/-- The excerpt at an offset whose segment is cut there. -/
theorem atOffset?_eq {offset : Nat} (hsegment : source.segmentAt offset = some segment)
    (hcontent : segment.content.toList = lead ++ tail)
    (hlead : byteLength lead = offset - segment.start) (text : String) :
    atOffset? source offset (some text) = some
      { segment, range := clamp ⟨byteLength lead, byteLength lead +
          if text.toList.isPrefixOf tail then text.utf8ByteSize else 0⟩ (lead ++ tail) } := by
  simp only [atOffset?, hsegment, Option.map_some, hcontent, ← hlead, Text.dropBytes?_append,
    Option.any_some, Option.filter_some]
  cases text.toList.isPrefixOf tail <;> rfl

/-- What the excerpt of a fault at an offset is about, by the text that the fault was raised
at. -/
inductive Points (source : Source) (segment : Segment) : Nat → String → ByteRange → Prop where
  | token {token : Token} (htoken : token ∈ significant (lex source.text))
      (hholds : segment.holds token.start) (hstop : token.stop ≤ segment.stop) :
      Points source segment token.start token.text
        ⟨token.start - segment.start, token.stop - segment.start⟩
  | character {token : Token} {c : Char} {rest : List Char}
      (htoken : token ∈ significant (lex source.text)) (hholds : segment.holds token.start)
      (hstop : segment.stop < token.stop) (htext : token.text.toList = c :: rest) :
      Points source segment token.start token.text
        ⟨token.start - segment.start, token.start - segment.start + c.utf8Size⟩
  /-- The end of the last segment that is not empty. -/
  | endOfInput (hlast : (source.segments.filter (!·.isEmpty)).getLast? = some segment) :
      Points source segment source.size endOfInputText (.empty segment.size)

structure PointsAt (source : Source) (offset : Nat) (text : String) (excerpt : Excerpt) :
    Prop where
  segment : source.segmentAt offset = some excerpt.segment
  aligned : excerpt.Aligned
  points : Points source excerpt.segment offset text excerpt.range

/-- A token that lies in its segment is shown as a whole. -/
theorem pointsAt_of_stop_le (h : source.Built) (htoken : token ∈ significant (lex source.text))
    (hsegment : source.segmentAt token.start = some segment) (hstop : token.stop ≤ segment.stop) :
    ∃ excerpt, atOffset? source token.start (some token.text) = some excerpt ∧
      PointsAt source token.start token.text excerpt := by
  have hlex := List.mem_of_mem_filter htoken
  have hholds := h.holds_of_token hlex hsegment
  have hlow := (Segment.holds_iff.1 hholds).1
  obtain ⟨lead, tail, after, back, hcontent, hboth, hlead, htail⟩ := h.exists_lead hlex hsegment
  have hsize := token.stop_eq
  obtain ⟨behind, rfl, -⟩ := Text.exists_between hboth (by omega)
  have hstands : token.text.toList.isPrefixOf (token.text.toList ++ behind) = true :=
    List.isPrefixOf_iff_prefix.2 (List.prefix_append _ _)
  have hrange : ByteRange.mk (byteLength lead) (byteLength lead + byteLength token.text.toList) =
      ⟨token.start - segment.start, token.stop - segment.start⟩ := by
    rw [ByteRange.mk.injEq]
    omega
  refine ⟨_, atOffset?_eq hsegment hcontent hlead token.text, ?_⟩
  rw [hstands, if_pos rfl, ← Text.byteLength_toList,
    clamp_shown lead behind (mt String.toList_eq_nil_iff.1
      ((lex_tiles source.text).nonempty token hlex))]
  refine ⟨hsegment, aligned_of_split hcontent, ?_⟩
  show Points source segment token.start token.text _
  rw [hrange]
  exact .token htoken hholds hstop

/-- A token that continues in a later segment is shown by its first character. -/
theorem pointsAt_of_lt_stop (h : source.Built) (htoken : token ∈ significant (lex source.text))
    (hsegment : source.segmentAt token.start = some segment) (hstop : segment.stop < token.stop) :
    ∃ excerpt, atOffset? source token.start (some token.text) = some excerpt ∧
      PointsAt source token.start token.text excerpt := by
  have hlex := List.mem_of_mem_filter htoken
  have hholds := h.holds_of_token hlex hsegment
  obtain ⟨hlow, hless⟩ := Segment.holds_iff.1 hholds
  obtain ⟨lead, tail, after, back, hcontent, hboth, hlead, htail⟩ := h.exists_lead hlex hsegment
  have hsize := token.stop_eq
  obtain ⟨more, htext, -⟩ := Text.exists_between hboth.symm (by omega)
  have hstands : token.text.toList.isPrefixOf tail = false := by
    rw [← Bool.not_eq_true, List.isPrefixOf_iff_prefix]
    rintro ⟨rest, hrest⟩
    have hlength := congrArg byteLength hrest
    rw [Text.byteLength_append] at hlength
    omega
  cases tail with
  | nil =>
    rw [Text.byteLength_nil] at htail
    omega
  | cons c tail =>
    refine ⟨_, atOffset?_eq hsegment hcontent hlead token.text, ?_⟩
    have hclamp := clamp_empty lead (c :: tail)
    simp only [ByteRange.empty, List.head?_cons, Option.map_some, Option.getD_some] at hclamp
    rw [hstands, if_neg Bool.false_ne_true, Nat.add_zero, hclamp]
    have hsplit : segment.content.toList = lead ++ ([c] ++ tail) := hcontent
    refine ⟨hsegment, by simpa using aligned_of_split hsplit, ?_⟩
    show Points source segment token.start token.text _
    rw [hlead]
    exact .character htoken hholds hstop htext

/-- At the end of the input there is nothing to show. -/
theorem pointsAt_end (h : source.Built) (hsegment : source.segmentAt source.size = some segment) :
    ∃ excerpt, atOffset? source source.size (some endOfInputText) = some excerpt ∧
      PointsAt source source.size endOfInputText excerpt := by
  have hstop := h.stop_of_segmentAt hsegment
  have hlead : byteLength segment.content.toList = source.size - segment.start := by
    rw [← hstop, segment.stop_eq, Nat.add_sub_cancel_left]
  have hcontent := (List.append_nil segment.content.toList).symm
  have hclamp := clamp_empty segment.content.toList []
  have hstands : endOfInputText.toList.isPrefixOf [] = false := by decide
  refine ⟨_, atOffset?_eq hsegment hcontent hlead endOfInputText, ?_⟩
  simp only [ByteRange.empty, List.head?_nil, Option.map_none, Option.getD_none] at hclamp
  rw [hstands, if_neg Bool.false_ne_true, Nat.add_zero, hclamp]
  have hsplit : segment.content.toList = segment.content.toList ++ ([] ++ []) := by simp
  refine ⟨hsegment, aligned_of_split hsplit, ?_⟩
  show Points source segment source.size endOfInputText _
  rw [Text.byteLength_toList]
  exact .endOfInput (Source.getLast?_of_segmentAt hsegment)

theorem pointsAt_of_place (h : source.Built) {rest : List Token}
    (hrest : rest <:+ significant (lex source.text))
    (hsegment : source.segmentAt (Place.before source.size rest).range.start = some segment) :
    let place := Place.before source.size rest
    ∃ excerpt, atOffset? source place.range.start (some place.text) = some excerpt ∧
      PointsAt source place.range.start place.text excerpt := by
  cases rest with
  | nil => exact pointsAt_end h hsegment
  | cons token rest =>
    have htoken := hrest.subset List.mem_cons_self
    rcases Nat.lt_or_ge segment.stop token.stop with hstop | hstop
    · exact pointsAt_of_lt_stop h htoken hsegment hstop
    · exact pointsAt_of_stop_le h htoken hsegment hstop

/-- The excerpt of a fault that a parse gives a location. -/
theorem ofFault?_of_parse (h : source.Built) {limits : Limits} {fault : Fault}
    {located : Located} (hparse : Document.parse limits source = .error fault)
    (hlocated : fault.location = some located) :
    ∃ excerpt text, ofFault? source fault = some excerpt ∧ fault.offending = some text ∧
      PointsAt source located.offset text excerpt := by
  rcases Document.fault_at hparse with hnone | ⟨rest, hrest, hoffending, hplace⟩
  · rw [hnone] at hlocated
    cases hlocated
  · rw [← h.size_eq] at hoffending hplace
    have hoffset := source.map_offset_locate (Place.before source.size rest).range.start
    rw [← hplace, hlocated, Option.map_some, eq_comm, Option.map_eq_some_iff] at hoffset
    obtain ⟨segment, hsegment, hoffset⟩ := hoffset
    obtain ⟨excerpt, hexcerpt, hpoints⟩ := pointsAt_of_place h hrest hsegment
    rw [hoffset] at hexcerpt hpoints
    refine ⟨excerpt, _, ?_, hoffending, hpoints⟩
    rw [ofFault?, hlocated, hoffending]
    exact hexcerpt

/-! ## Findings -/

/-- The excerpt can be drawn and shows the finding as far as its segment reaches, which is at
least in part. -/
structure Shows (source : Source) (finding : Finding) (excerpt : Excerpt) : Prop where
  segment : source.segmentAt finding.range.start = some excerpt.segment
  holds : excerpt.segment.holds finding.range.start
  aligned : excerpt.Aligned
  range : excerpt.range = ⟨finding.range.start - excerpt.segment.start,
    min finding.range.stop excerpt.segment.stop - excerpt.segment.start⟩
  nonempty : excerpt.range.start < excerpt.range.stop

theorem ofFinding?_of_spans (h : source.Built) {finding : Finding}
    (hspans : finding.range.Spans (significant (lex source.text))) :
    ∃ excerpt, ofFinding? source finding = some excerpt ∧ Shows source finding excerpt := by
  have hstop := hspans.start_lt_stop
  have hsize : finding.range.start < source.size := by
    obtain ⟨first, hfirst, last, -, hrange⟩ := hspans.exists_tokens
    rw [hrange]
    exact Source.start_lt_size h (List.mem_of_mem_filter hfirst)
  obtain ⟨segment, hsegment⟩ := Option.isSome_iff_exists.1
    ((h.isSome_segmentAt_iff finding.range.start).2 ⟨by omega, by omega⟩)
  obtain ⟨hholds, lead, shown, rest, hcontent, hlead, hshown⟩ := h.exists_shown hspans hsegment
  obtain ⟨hlow, hless⟩ := Segment.holds_iff.1 hholds
  have hend := segment.stop_eq
  have hclamp : clamp ⟨finding.range.start - segment.start, finding.range.start - segment.start +
      (finding.range.stop - finding.range.start)⟩ segment.content.toList =
      ⟨byteLength lead, byteLength lead + byteLength shown⟩ := by
    rw [clamp_of_lt, ByteRange.mk.injEq] <;> simp only <;> omega
  refine ⟨⟨segment, ⟨byteLength lead, byteLength lead + byteLength shown⟩⟩, ?_, hsegment, hholds,
    aligned_of_split hcontent, ?_, ?_⟩
  · simp only [ofFinding?, hsegment, Option.map_some, hclamp]
  · rw [hshown, hlead]
  · show byteLength lead < byteLength lead + byteLength shown
    omega

/-- Whatever a source's parse and validation report is drawn within one segment and between
characters.  A fault is drawn at its token, at the first character of a token that continues
in a later segment, or at the end; a finding as far as its segment reaches. -/
theorem aligned_excerpts (h : source.Built) :
    (∀ limits fault located, Document.parse limits source = .error fault →
      fault.location = some located →
      ∃ excerpt text, ofFault? source fault = some excerpt ∧ fault.offending = some text ∧
        PointsAt source located.offset text excerpt) ∧
    ∀ limits document checks names capacity findings,
      Document.parse limits source = .ok document →
      (Validator.ofRules checks names capacity).run document = .ok findings →
      ∀ finding ∈ findings.toList,
        ∃ excerpt, ofFinding? source finding = some excerpt ∧ Shows source finding excerpt := by
  constructor
  · intro limits fault located hparse hlocated
    exact ofFault?_of_parse h hparse hlocated
  · intro limits document checks names capacity findings hparse hrun finding hfinding
    exact ofFinding?_of_spans h (Validator.spans_of_run hparse hrun finding hfinding)

/-- A name that continues in the second segment is one token too many, and is taken already. -/
theorem aligned_excerpts_of_split_name :
    let first : Segment := ⟨none, "query AB\x7ba\x7dquery A", 0⟩
    let source : Source := ⟨[first, ⟨none, "B\x7ba\x7d", 18⟩], 22⟩
    let checks : Limits := { nodes := 0 }
    let shown : Excerpt := ⟨first, ⟨17, 18⟩⟩
    source.Built ∧
      (∃ fault, Document.parse { tokens := 6 } source = .error fault ∧
        ofFault? source fault = some shown ∧ PointsAt source 17 "AB" shown) ∧
      ∃ document capacity findings finding, Document.parse {} source = .ok document ∧
        (Validator.ofRules checks [.operationNames] capacity).run document = .ok findings ∧
        finding ∈ findings.toList ∧ finding.range = ⟨17, 19⟩ ∧
        ofFinding? source finding = some shown ∧ Shows source finding shown := by
  intro first source checks shown
  have hpieces : Source.ofPieces [(none, first.content), (none, "B\x7ba\x7d")] = .ok source := by
    decide +kernel
  have hbuilt : source.Built := Source.built_ofPieces hpieces
  obtain ⟨hfaults, hfindings⟩ := aligned_excerpts hbuilt
  refine ⟨hbuilt, ?fault, ?finding⟩
  case fault =>
    have hfault : ((Document.parse { tokens := 6 } source).map fun _ => ()).mapError
        (fun fault => (fault.location.map (·.offset), fault.offending)) =
        .error (some 17, some "AB") := by
      decide +kernel
    cases hparse : Document.parse { tokens := 6 } source with
    | ok document =>
      rw [hparse] at hfault
      cases hfault
    | error fault =>
      rw [hparse] at hfault
      obtain ⟨hlocation, hoffending⟩ := Prod.mk.inj (Except.error.inj hfault)
      obtain ⟨located, hlocated, hoffset⟩ := Option.map_eq_some_iff.1 hlocation
      obtain ⟨excerpt, text, hexcerpt, htext, hpoints⟩ := hfaults _ _ _ hparse hlocated
      cases hoffending.symm.trans htext
      rw [hoffset] at hpoints
      have hshown : ofFault? source fault = some shown := by
        rw [ofFault?, hlocated, hoffending, Option.bind_some, hoffset]
        decide +kernel
      cases hshown.symm.trans hexcerpt
      exact ⟨fault, rfl, hshown, hpoints⟩
  case finding =>
    have hmap : (Document.parse {} source).toOption.map (fun document =>
        (document.report .operationNames).map (·.range)) = some [⟨17, 19⟩] := by
      decide +kernel
    obtain ⟨document, hparse, hranges⟩ := Document.exists_parse_of_map hmap
    obtain ⟨finding, hreport, hrange⟩ : ∃ finding, document.report .operationNames = [finding] ∧
        finding.range = ⟨17, 19⟩ := by
      simpa [List.map_eq_cons_iff] using hranges
    have hnodup : [RuleName.operationNames].Nodup := List.nodup_singleton _
    obtain ⟨findings, hrun⟩ := @Validator.exists_run checks _ _ document hnodup (Nat.le_refl _) rfl
    have hsorted := Validator.isStableSort_of_run hrun hnodup (Nat.le_refl _)
    have hmem : finding ∈ findings.toList := by
      rw [hsorted.perm.mem_iff, List.flatMap_singleton, hreport]
      exact List.mem_singleton_self _
    obtain ⟨excerpt, hexcerpt, hshows⟩ := hfindings _ _ _ _ _ _ hparse hrun finding hmem
    have hshown : ofFinding? source finding = some shown := by
      rw [ofFinding?, hrange]
      decide +kernel
    cases hshown.symm.trans hexcerpt
    exact ⟨document, _, findings, finding, hparse, hrun, hmem, hrange, hshown, hshows⟩

end Excerpt

end GuardedQuery
