import GuardedQuery.Proofs.Source.Locating
import Mathlib.Data.Prod.Lex

/-! # Locations in order

Reading one more character leads to a later line, or to a later column of the same line.  Only a
line feed right behind a carriage return leads nowhere, since the line has ended already.  So
places of one segment stand in the order of their offsets, and there is one case in which two
of them are alike.

- `Text.position`: where a text ends.
- `Text.position_lt_append`: a longer text ends later.
- `Segment.CutAt`: the characters of a segment in front of an offset and behind it.
- `Source.locate_ordered`: locations of one segment.
-/

namespace GuardedQuery

namespace Text

variable {c : Char} {front more : List Char}

def position (chars : List Char) : ℕ ×ₗ ℕ :=
  toLex (1 + lineEnds chars, (lastLine chars).length)

/-! ## One character more -/

theorem position_concat_pair (h : front.getLast? = some '\r') :
    position (front ++ ['\n']) = position front := by
  rw [position, lineEnds_concat, if_pos ⟨rfl, h⟩, lastLine_concat]
  simp [position, lastLine_eq_nil h, isLineEnd]

theorem position_lt_concat (h : ¬ (c = '\n' ∧ front.getLast? = some '\r')) :
    position front < position (front ++ [c]) := by
  rw [position, position, Prod.Lex.toLex_lt_toLex, lineEnds_concat, if_neg h, lastLine_concat]
  by_cases hend : isLineEnd c
  · exact .inl (by simp [hend])
  · exact .inr (by simp [hend])

theorem position_le_concat : position front ≤ position (front ++ [c]) := by
  by_cases h : c = '\n' ∧ front.getLast? = some '\r'
  · obtain ⟨rfl, hlast⟩ := h
    exact (position_concat_pair hlast).ge
  · exact (position_lt_concat h).le

/-! ## Any number of characters more -/

theorem position_le_append (front more : List Char) :
    position front ≤ position (front ++ more) := by
  induction more using List.reverseRecOn with
  | nil => rw [List.append_nil]
  | append_singleton more c ih =>
    rw [← List.append_assoc]
    exact ih.trans position_le_concat

/-- A longer text ends later, unless all it has more is the line feed of a pair. -/
theorem position_lt_append (hmore : more ≠ [])
    (hpair : ¬ (more = ['\n'] ∧ front.getLast? = some '\r')) :
    position front < position (front ++ more) := by
  induction more using List.reverseRecOn with
  | nil => exact absurd rfl hmore
  | append_singleton more c ih =>
    rw [← List.append_assoc]
    by_cases hlast : c = '\n' ∧ (front ++ more).getLast? = some '\r'
    · -- The carriage return of this pair is among what is more, and leads on by itself.
      obtain ⟨rfl, hreturn⟩ := hlast
      have hbefore : more ≠ [] := by
        rintro rfl
        exact hpair ⟨rfl, by simpa using hreturn⟩
      rw [List.getLast?_append_of_ne_nil _ hbefore] at hreturn
      refine (ih hbefore ?_).trans_le position_le_concat
      rintro ⟨rfl, -⟩
      cases hreturn
    · exact (position_le_append front more).trans_lt (position_lt_concat hlast)

theorem position_eq_append_iff (hmore : more ≠ []) :
    position front = position (front ++ more) ↔ more = ['\n'] ∧ front.getLast? = some '\r' := by
  constructor
  · intro h
    by_contra hpair
    exact (position_lt_append hmore hpair).ne h
  · rintro ⟨rfl, hlast⟩
    exact (position_concat_pair hlast).symm

end Text

namespace Segment

variable {segment : Segment} {offset later : Nat} {front back front' back' : List Char}

structure CutAt (segment : Segment) (offset : Nat) (front back : List Char) : Prop where
  content : segment.content.toList = front ++ back
  offset : offset = segment.start + Text.byteLength front

def IsBoundary (segment : Segment) (offset : Nat) : Prop :=
  ∃ front back, segment.CutAt offset front back

/-- Whether a line feed starts at an offset that makes a pair with a carriage return in front
of it, in the same segment. -/
def InsidePair (segment : Segment) (offset : Nat) : Prop :=
  ∃ front back, segment.CutAt offset (front ++ ['\r']) ('\n' :: back)

theorem CutAt.inFront (h : segment.CutAt offset front back) :
    Text.InFront (offset - segment.start) segment.content.toList front := by
  have htake := Text.takeBytes_append front back
  rw [← h.content, show Text.byteLength front = offset - segment.start by
    rw [h.offset, Nat.add_sub_cancel_left]] at htake
  rw [← htake]
  exact Text.inFront_takeBytes _ _

theorem CutAt.unique (h : segment.CutAt offset front back)
    (h' : segment.CutAt offset front' back') :
    front = front' ∧ back = back' := by
  obtain rfl := h.inFront.unique h'.inFront
  have hcontent := h.content.symm.trans h'.content
  exact ⟨rfl, List.append_cancel_left hcontent⟩

/-- What stands between two offsets. -/
theorem CutAt.exists_between (h : segment.CutAt offset front back)
    (h' : segment.CutAt later front' back') (hless : offset < later) :
    ∃ between, between ≠ [] ∧ front' = front ++ between ∧ back = between ++ back' := by
  have hsame := h.content.symm.trans h'.content
  rcases List.append_eq_append_iff.1 hsame with ⟨between, rfl, rfl⟩ | ⟨between, rfl, -⟩
  · refine ⟨between, ?_, rfl, rfl⟩
    rintro rfl
    exact absurd (h.offset.trans (by rw [h'.offset, List.append_nil])) hless.ne
  · have hfirst := h.offset
    have hsecond := h'.offset
    rw [Text.byteLength_append] at hfirst
    omega

/-- Only the line feed of a pair stands between two offsets. -/
theorem CutAt.pair_iff {between : List Char} (h : segment.CutAt offset front (between ++ back))
    (h' : segment.CutAt later (front ++ between) back) (hbetween : between ≠ []) :
    segment.InsidePair offset ∧ later = offset + 1 ↔
      between = ['\n'] ∧ front.getLast? = some '\r' := by
  have hlater : later = offset + Text.byteLength between := by
    rw [h'.offset, h.offset, Text.byteLength_append, Nat.add_assoc]
  constructor
  · rintro ⟨⟨start, rest, hpair⟩, hnext⟩
    obtain ⟨rfl, hrest⟩ := h.unique hpair
    obtain ⟨c, others, rfl⟩ := List.exists_cons_of_ne_nil hbetween
    obtain ⟨rfl, -⟩ := List.cons.inj hrest
    rw [Text.byteLength_cons, show ('\n').utf8Size = 1 from rfl] at hlater
    have hlength := Text.length_le_byteLength others
    obtain rfl : others = [] := List.eq_nil_of_length_eq_zero (by omega)
    exact ⟨rfl, List.getLast?_concat⟩
  · rintro ⟨rfl, hlast⟩
    obtain ⟨start, rfl⟩ := List.getLast?_eq_some_iff.1 hlast
    exact ⟨⟨start, back, h⟩, hlater⟩

end Segment

def Location.position (location : Location) : ℕ ×ₗ ℕ :=
  toLex (location.line.toNat, location.column.toNat)

namespace Source

variable {source : Source} {segment : Segment} {first second : Nat}

theorem Built.exists_position (h : source.Built) (hsize : source.size < maxSize) {offset : Nat}
    (hsegment : source.segmentAt offset = some segment) {front back : List Char}
    (hcut : segment.CutAt offset front back) :
    ∃ location, source.locate offset = some (.counted location) ∧
      location.position = Text.position front := by
  obtain ⟨other, location, hother, hlocate, -, -, hline, hcolumn⟩ :=
    h.locate_of_segmentAt hsize hsegment
  obtain rfl := hcut.inFront.unique hother
  exact ⟨_, hlocate, by rw [Location.position, Text.position, hline, hcolumn]⟩

/-- Two offsets of one segment at which characters start, or the segment ends, are located in
their order.  Their lines and columns are the same only if the line feed of a pair is all that
stands between them. -/
theorem locate_ordered (h : source.Built) (hsize : source.size < maxSize)
    (hfirst : source.segmentAt first = some segment)
    (hsecond : source.segmentAt second = some segment)
    (hboundary : segment.IsBoundary first) (hboundary' : segment.IsBoundary second)
    (hless : first < second) :
    ∃ location later, source.locate first = some (.counted location) ∧
      source.locate second = some (.counted later) ∧
      (location.position = later.position ↔ segment.InsidePair first ∧ second = first + 1) ∧
      (¬ (segment.InsidePair first ∧ second = first + 1) → location.position < later.position) := by
  obtain ⟨front, back, hcut⟩ := hboundary
  obtain ⟨front', back', hcut'⟩ := hboundary'
  obtain ⟨location, hlocation, hposition⟩ := h.exists_position hsize hfirst hcut
  obtain ⟨later, hlater, hposition'⟩ := h.exists_position hsize hsecond hcut'
  obtain ⟨between, hbetween, rfl, rfl⟩ := hcut.exists_between hcut' hless
  refine ⟨location, later, hlocation, hlater, ?_, fun hpair => ?_⟩
  · rw [hposition, hposition', Text.position_eq_append_iff hbetween, hcut.pair_iff hcut' hbetween]
  · rw [hcut.pair_iff hcut' hbetween] at hpair
    rw [hposition, hposition']
    exact Text.position_lt_append hbetween hpair

/-- The second of two segments, in front of the line feed of a pair and behind it, and then
behind a character of two bytes. -/
theorem locate_ordered_at_pair :
    let segment : Segment := ⟨some "b", "y\r\né", 2⟩
    let source : Source := ⟨[⟨none, "x\r", 0⟩, segment], 7⟩
    source.Built ∧ source.size < maxSize ∧
      (∃ location later, source.locate 4 = some (.counted location) ∧
        source.locate 5 = some (.counted later) ∧ location.position = later.position) ∧
      ∃ location later, source.locate 4 = some (.counted location) ∧
        source.locate 7 = some (.counted later) ∧ location.position < later.position := by
  intro segment source
  have hpieces : ofPieces [(none, "x\r"), (some "b", "y\r\né")] = .ok source := by decide +kernel
  have hbuilt : source.Built := built_ofPieces hpieces
  have hsize : source.size < maxSize := by decide
  have hat (offset : Nat) (hoffset : offset ∈ [4, 5, 7]) :
      source.segmentAt offset = some segment := by
    revert offset
    decide +kernel
  have hpair : segment.CutAt 4 ['y', '\r'] ['\n', 'é'] := ⟨by decide +kernel, by decide⟩
  have hbehind : segment.CutAt 5 ['y', '\r', '\n'] ['é'] := ⟨by decide +kernel, by decide⟩
  have hend : segment.CutAt 7 ['y', '\r', '\n', 'é'] [] := ⟨by decide +kernel, by decide +kernel⟩
  refine ⟨hbuilt, hsize, ?alike, ?apart⟩
  case alike =>
    obtain ⟨location, later, hlocation, hlater, hsame, -⟩ :=
      locate_ordered hbuilt hsize (hat 4 (by decide)) (hat 5 (by decide)) ⟨_, _, hpair⟩
        ⟨_, _, hbehind⟩ (by decide)
    exact ⟨location, later, hlocation, hlater, hsame.2 ⟨⟨['y'], ['é'], hpair⟩, rfl⟩⟩
  case apart =>
    obtain ⟨location, later, hlocation, hlater, -, hapart⟩ :=
      locate_ordered hbuilt hsize (hat 4 (by decide)) (hat 7 (by decide)) ⟨_, _, hpair⟩
        ⟨_, _, hend⟩ (by decide)
    exact ⟨location, later, hlocation, hlater, hapart fun h => absurd h.2 (by decide)⟩

end Source

end GuardedQuery
