import GuardedQuery.Proofs.Source.Reading
import Mathlib.Algebra.GroupWithZero.Nat

/-! # Reading at a place

A reader keeps what is left of a source.  It can also keep where it stands: a segment and how
many bytes of it are read.  Then texts are cut at byte positions, one and the same point of
the text has several places around segments that are read up or empty, and a loop looks for
the next segment.  Both ways of reading deliver the text of the source.

- `Cursor`: a place in a source.
- `Cursor.readOn`, `Cursor.read`, `Cursor.isExhausted`: reading at a place.
- `Cursor.StandsAt`: what follows a place, whichever of its places a reader stands at.
- `Cursor.StandsAt.read`: one read.
- `Source.reads_deliver`: reads of any sizes.
-/

namespace GuardedQuery

namespace Text

def countLeading (n bytes count : Nat) : List Char → Nat × Nat
  | [] => (bytes, count)
  | c :: rest =>
    if count = n then (bytes, count) else countLeading n (bytes + c.utf8Size) (count + 1) rest

def takeBytes? (n : Nat) (chars : List Char) : Option (List Char) :=
  (dropBytes? n chars).map fun _ => takeBytes n chars

theorem byteLength_eq_zero_iff {chars : List Char} : byteLength chars = 0 ↔ chars = [] := by
  cases chars with
  | nil => simp
  | cons c rest => simp [Nat.ne_of_gt c.utf8Size_pos]

theorem takeBytes?_append (front back : List Char) :
    takeBytes? (byteLength front) (front ++ back) = some front := by
  rw [takeBytes?, dropBytes?_append, takeBytes_append]
  rfl

theorem countLeading_eq {n count : Nat} (bytes : Nat) (chars : List Char) (h : count ≤ n) :
    countLeading n bytes count chars =
      (bytes + byteLength (chars.take (n - count)), count + min (n - count) chars.length) := by
  induction chars generalizing bytes count with
  | nil => simp [countLeading]
  | cons c rest ih =>
    rw [countLeading]
    split
    next heq => simp [heq]
    next hne =>
      obtain ⟨more, hmore⟩ : ∃ more, n - count = more + 1 := ⟨n - count - 1, by omega⟩
      have hrest : n - (count + 1) = more := by omega
      rw [ih _ (by omega), hrest, hmore, List.take_succ_cons, byteLength_cons, List.length_cons,
        Nat.add_assoc, Prod.mk.injEq]
      omega

theorem countLeading_pos {n : Nat} {chars : List Char} (hn : 0 < n) (hchars : chars ≠ []) :
    0 < (countLeading n 0 0 chars).2 := by
  have hlength := List.length_pos_iff.2 hchars
  rw [countLeading_eq 0 chars (Nat.zero_le n)]
  simp only
  omega

end Text

structure Cursor where
  segment : Nat := 0
  position : Nat := 0

namespace Cursor

/-- Reads on from a place until `n` characters are in or no segment is left.  Gives how many
they are, what they were put behind, and the place that is reached.  A place inside a
character or behind the end of its segment gives nothing. -/
def readOn (source : Source) (n : Nat) (cursor : Cursor) (text : List Char) (count : Nat) :
    Option (Nat × List Char × Cursor) :=
  if h : count < n ∧ cursor.segment < source.segments.length then do
    let rest ← Text.dropBytes? cursor.position source.segments[cursor.segment].content.toList
    if hrest : rest = [] then readOn source n ⟨cursor.segment + 1, 0⟩ text count
    else
      let leading := Text.countLeading (n - count) 0 0 rest
      let taken ← Text.takeBytes? leading.1 rest
      readOn source n ⟨cursor.segment, cursor.position + leading.1⟩ (text ++ taken)
        (count + leading.2)
  else some (count, text, cursor)
termination_by (source.segments.length - cursor.segment, n - count)
decreasing_by
  · -- The next segment.
    exact Prod.Lex.left _ _ (by omega)
  · -- One character at least.
    have hpos : 0 < leading.2 := Text.countLeading_pos (Nat.sub_pos_of_lt h.1) hrest
    exact Prod.Lex.right _ (Nat.sub_lt_sub_left h.1 (Nat.lt_add_of_pos_right hpos))

def read (source : Source) (cursor : Cursor) (text : List Char) (n : Nat) :
    Option (Nat × List Char × Cursor) :=
  readOn source n cursor text 0

def isExhausted (source : Source) (cursor : Cursor) : Bool :=
  match source.segments[cursor.segment]? with
  | none => true
  | some segment =>
    segment.size ≤ cursor.position &&
      (source.segments.drop (cursor.segment + 1)).all (·.isEmpty)

def readAll (source : Source) (cursor : Cursor) (text : List Char) :
    List Nat → Option (List Char × Cursor)
  | [] => some (text, cursor)
  | n :: sizes => do
    let (_, text, cursor) ← cursor.read source text n
    cursor.readAll source text sizes

/-! ## What follows a place -/

def textOf (segments : List Segment) : List Char :=
  segments.flatMap (·.content.toList)

/-- The cursor stands between two characters of a segment, or behind all segments, and `left`
follows.  At the end of a segment this is what later segments hold. -/
inductive StandsAt (source : Source) : Cursor → List Char → Prop where
  | inside {before after : List Segment} {segment : Segment} {front back : List Char}
      (hsegments : source.segments = before ++ segment :: after)
      (hcontent : segment.content.toList = front ++ back) :
      StandsAt source ⟨before.length, Text.byteLength front⟩ (back ++ textOf after)
  | behind : StandsAt source ⟨source.segments.length, 0⟩ []

variable {source : Source} {cursor : Cursor} {left : List Char}

/-- The start of a segment, or the end of the last one. -/
theorem standsAt_start {before after : List Segment} (h : source.segments = before ++ after) :
    StandsAt source ⟨before.length, 0⟩ (textOf after) := by
  cases after with
  | nil =>
    rw [List.append_nil] at h
    rw [← h]
    exact .behind
  | cons segment after => exact .inside h (List.nil_append _).symm

/-! ## One read -/

section readOn

variable {before after : List Segment} {segment : Segment} {front back text : List Char}
  {n count : Nat}

theorem readOn_done (cursor : Cursor) (text : List Char) :
    readOn source n cursor text n = some (n, text, cursor) := by
  rw [readOn, dif_neg fun h => Nat.lt_irrefl n h.1]

theorem readOn_behind (text : List Char) (count : Nat) :
    readOn source n ⟨source.segments.length, 0⟩ text count =
      some (count, text, ⟨source.segments.length, 0⟩) := by
  rw [readOn]
  simp

/-- Behind the last character of a segment the next one is looked at. -/
theorem readOn_next (hsegments : source.segments = before ++ segment :: after)
    (hcontent : segment.content.toList = front) (hcount : count < n) :
    readOn source n ⟨before.length, Text.byteLength front⟩ text count =
      readOn source n ⟨before.length + 1, 0⟩ text count := by
  have hrest := Text.dropBytes?_append front []
  rw [List.append_nil] at hrest
  conv => lhs; rw [readOn]
  simp [hcount, hsegments, hcontent, hrest]

/-- Inside a segment as much of it is taken as is asked for. -/
theorem readOn_inside (hsegments : source.segments = before ++ segment :: after)
    (hcontent : segment.content.toList = front ++ back) (hback : back ≠ []) (hcount : count < n) :
    readOn source n ⟨before.length, Text.byteLength front⟩ text count =
      readOn source n ⟨before.length, Text.byteLength (front ++ back.take (n - count))⟩
        (text ++ back.take (n - count)) (count + min (n - count) back.length) := by
  have hrest := Text.dropBytes?_append front back
  have htaken := Text.takeBytes?_append (back.take (n - count)) (back.drop (n - count))
  rw [List.take_append_drop] at htaken
  have hleading := Text.countLeading_eq 0 back (Nat.zero_le (n - count))
  rw [Nat.zero_add, Nat.zero_add, Nat.sub_zero] at hleading
  conv => lhs; rw [readOn]
  simp [hcount, hsegments, hcontent, hrest, hback, hleading, htaken, Text.byteLength_append]

/-- Reading on from the place gives what follows, as much of it as is asked for, and leaves the
cursor in front of the rest. -/
def Delivers (source : Source) (n : Nat) (cursor : Cursor) (text : List Char) (count : Nat)
    (left : List Char) : Prop :=
  ∃ next,
    readOn source n cursor text count =
      some (count + min (n - count) left.length, text ++ left.take (n - count), next) ∧
    StandsAt source next (left.drop (n - count))

theorem delivers_done (h : StandsAt source cursor left) (text : List Char) :
    Delivers source n cursor text n left := by
  refine ⟨cursor, ?_, ?_⟩
  · rw [readOn_done]
    simp
  · rwa [Nat.sub_self, List.drop_zero]

/-- In a segment, if the next one is read on from as it should be. -/
theorem delivers_inside (hsegments : source.segments = before ++ segment :: after)
    (hcontent : segment.content.toList = front ++ back)
    (hnext : ∀ text count, count ≤ n →
      Delivers source n ⟨before.length + 1, 0⟩ text count (textOf after))
    (hcount : count ≤ n) (text : List Char) :
    Delivers source n ⟨before.length, Text.byteLength front⟩ text count (back ++ textOf after) := by
  have hend (text : List Char) (count : Nat) (hcount : count ≤ n) :
      Delivers source n ⟨before.length, Text.byteLength (front ++ back)⟩ text count
        (textOf after) := by
    have hstands := StandsAt.inside hsegments (hcontent.trans (List.append_nil _).symm)
    rcases Nat.eq_or_lt_of_le hcount with rfl | hless
    · exact delivers_done hstands text
    · rw [Delivers, readOn_next hsegments hcontent hless]
      exact hnext text count hcount
  rcases Nat.eq_or_lt_of_le hcount with rfl | hless
  · exact delivers_done (.inside hsegments hcontent) text
  by_cases hback : back = []
  · subst hback
    rw [List.append_nil] at hend
    exact hend text count hcount
  rw [Delivers, readOn_inside hsegments hcontent hback hless]
  by_cases hwithin : n - count ≤ back.length
  · -- The segment holds all that is asked for.
    have hall : count + (n - count) = n := by omega
    have hstands : StandsAt source
        ⟨before.length, Text.byteLength (front ++ back.take (n - count))⟩
        (back.drop (n - count) ++ textOf after) :=
      .inside hsegments (by rw [List.append_assoc, List.take_append_drop, hcontent])
    refine ⟨⟨before.length, Text.byteLength (front ++ back.take (n - count))⟩, ?_, ?_⟩
    · rw [Nat.min_eq_left hwithin, hall, readOn_done, List.length_append,
        Nat.min_eq_left (Nat.le_add_right_of_le hwithin), hall,
        List.take_append_of_le_length hwithin]
    · rwa [List.drop_append_of_le_length hwithin]
  · -- The segment is read up, and more is wanted.
    have hless : back.length ≤ n - count := Nat.le_of_not_le hwithin
    have hrest : n - (count + back.length) = n - count - back.length := by omega
    obtain ⟨next, hread, hstands⟩ := hend (text ++ back) (count + back.length) (by omega)
    rw [hrest] at hread hstands
    refine ⟨next, ?_, ?_⟩
    · rw [List.take_of_length_le hless, Nat.min_eq_right hless, hread, List.take_append,
        List.take_of_length_le hless, List.append_assoc, List.length_append]
      congr 2
      omega
    · rwa [List.drop_append, List.drop_eq_nil_of_le hless, List.nil_append]

theorem delivers_start (hsegments : source.segments = before ++ after) (hcount : count ≤ n)
    (text : List Char) : Delivers source n ⟨before.length, 0⟩ text count (textOf after) := by
  induction after generalizing before count text with
  | nil =>
    rw [List.append_nil] at hsegments
    refine ⟨⟨before.length, 0⟩, ?_, ?_⟩
    · rw [← hsegments, readOn_behind]
      simp [textOf]
    · rw [← hsegments, textOf, List.flatMap_nil, List.drop_nil]
      exact .behind
  | cons segment after ih =>
    have hlater : source.segments = (before ++ [segment]) ++ after := by simpa using hsegments
    refine delivers_inside hsegments (List.nil_append _).symm (fun text count hcount => ?_)
      hcount text
    have hnext := ih hlater hcount text
    rwa [List.length_append, List.length_singleton] at hnext

end readOn

/-- One read.  It delivers the next characters, as many as are asked for and are left, and
leaves the cursor in front of the rest. -/
theorem StandsAt.read (h : StandsAt source cursor left) (text : List Char) (n : Nat) :
    ∃ next, cursor.read source text n = some (min n left.length, text ++ left.take n, next) ∧
      StandsAt source next (left.drop n) := by
  have hdelivers : Delivers source n cursor text 0 left := by
    cases h with
    | @inside before after segment front back hsegments hcontent =>
      have hlater : source.segments = (before ++ [segment]) ++ after := by simpa using hsegments
      refine delivers_inside hsegments hcontent (fun text count hcount => ?_) (Nat.zero_le n) text
      have hnext := delivers_start hlater hcount text
      rwa [List.length_append, List.length_singleton] at hnext
    | behind => exact delivers_start (List.append_nil _).symm (Nat.zero_le n) text
  simpa [Delivers, Cursor.read] using hdelivers

/-- Nothing is left exactly if the reader says so, at whichever of its places it stands. -/
theorem StandsAt.isExhausted_iff (h : StandsAt source cursor left) :
    cursor.isExhausted source ↔ left = [] := by
  cases h with
  | @inside before after segment front back hsegments hcontent =>
    have hsize : segment.size = Text.byteLength front + Text.byteLength back := by
      rw [Segment.size, ← Text.byteLength_toList, hcontent, Text.byteLength_append]
    have hback : segment.size ≤ Text.byteLength front ↔ back = [] := by
      rw [hsize, ← Text.byteLength_eq_zero_iff]
      omega
    simp [isExhausted, hsegments, hback, textOf, Segment.isEmpty]
  | behind => simp [isExhausted]

/-- Reads of any sizes. -/
theorem StandsAt.readAll (h : StandsAt source cursor left) (text : List Char) (sizes : List Nat) :
    ∃ next, cursor.readAll source text sizes = some (text ++ left.take sizes.sum, next) ∧
      StandsAt source next (left.drop sizes.sum) := by
  induction sizes generalizing cursor left text with
  | nil => exact ⟨cursor, by simp [Cursor.readAll], by simpa using h⟩
  | cons n sizes ih =>
    obtain ⟨between, hread, hbetween⟩ := h.read text n
    obtain ⟨next, hrest, hnext⟩ := ih hbetween (text ++ left.take n)
    refine ⟨next, ?_, ?_⟩
    · rw [Cursor.readAll, hread]
      simp [hrest, List.take_add]
    · rwa [List.drop_drop] at hnext

end Cursor

/-! ## Readers and cursors -/

namespace Reader

def readAll (reader : Reader) (text : List Char) : List Nat → List Char × Reader
  | [] => (text, reader)
  | n :: sizes => (reader.read n).2.readAll (text ++ (reader.read n).1) sizes

theorem remaining_read (reader : Reader) (n : Nat) :
    (reader.read n).2.remaining = reader.remaining.drop n := by
  have hsplit := reader.read_append n
  rw [read_fst] at hsplit
  exact List.append_cancel_left (hsplit.trans (List.take_append_drop n _).symm)

theorem readAll_eq (reader : Reader) (text : List Char) (sizes : List Nat) :
    (reader.readAll text sizes).1 = text ++ reader.remaining.take sizes.sum ∧
      (reader.readAll text sizes).2.remaining = reader.remaining.drop sizes.sum := by
  induction sizes generalizing reader text with
  | nil => simp [readAll]
  | cons n sizes ih =>
    obtain ⟨htext, hremaining⟩ := ih (reader.read n).2 (text ++ (reader.read n).1)
    rw [remaining_read] at htext hremaining
    rw [readAll, htext, hremaining, read_fst, List.sum_cons, List.append_assoc, List.take_add,
      List.drop_drop]
    exact ⟨rfl, rfl⟩

end Reader

theorem Source.standsAt_reader (source : Source) :
    Cursor.StandsAt source {} source.reader.remaining := by
  have hsegments : source.segments = [] ++ source.segments := rfl
  rw [Reader.remaining, Source.reader, ← List.flatMap_def]
  exact Cursor.standsAt_start hsegments

/-- Reads of any sizes deliver the text of the source from its start, and the next one delivers
the next characters, as many as are asked for and are left.  This holds of a reader that keeps
what is left, and of one that keeps a segment and a number of its bytes: it never cuts inside a
character, and at whichever place it stands it can tell if nothing is left. -/
theorem Source.reads_deliver (source : Source) (sizes : List Nat) :
    let text := source.text.toList
    let left := text.drop sizes.sum
    (∃ reader, source.reader.readAll [] sizes = (text.take sizes.sum, reader) ∧
      (reader.isExhausted ↔ left = []) ∧
      ∀ n, (reader.read n).1 = left.take n ∧ (reader.read n).1.length = min n left.length) ∧
    ∃ cursor, Cursor.readAll source {} [] sizes = some (text.take sizes.sum, cursor) ∧
      (cursor.isExhausted source ↔ left = []) ∧
      ∀ before n, ∃ next,
        cursor.read source before n = some (min n left.length, before ++ left.take n, next) := by
  intro text left
  have htext : text = source.reader.remaining := source.text_toList
  constructor
  · obtain ⟨hread, hremaining⟩ := source.reader.readAll_eq [] sizes
    rw [← htext] at hread hremaining
    refine ⟨(source.reader.readAll [] sizes).2, Prod.ext hread rfl, ?_, fun n => ?_⟩
    · rw [Reader.isExhausted_iff, hremaining]
    · rw [Reader.read_fst, hremaining, List.length_take]
      exact ⟨rfl, rfl⟩
  · have hstart := source.standsAt_reader
    rw [← htext] at hstart
    obtain ⟨cursor, hread, hstands⟩ := hstart.readAll [] sizes
    refine ⟨cursor, hread, hstands.isExhausted_iff, fun before n => ?_⟩
    obtain ⟨next, hnext, -⟩ := hstands.read before n
    exact ⟨next, hnext⟩

end GuardedQuery
