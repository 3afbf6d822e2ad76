import GuardedQuery.Document

/-! # What reading a source gives

However a source is cut into segments and pulled in pieces, what comes out is its text,
or the fault of the gate if the text has more characters than the ceiling.

- `Reader.read_fst`: a read gives the beginning of what is left.
- `Feed.overflow?`: the fault that draining a feed ends with.
- `readText_eq`: the text of a source under limits.
-/

namespace GuardedQuery

namespace Reader

theorem takeChars_fst (n : Nat) (pending : List (List Char)) :
    (takeChars n pending).1 = pending.flatten.take n := by
  fun_induction takeChars n pending with
  | case1 => simp
  | case2 n segment later h more rest hrec ih =>
    have hlength : segment.length ≤ n := List.drop_eq_nil_iff.1 h
    simp only [hrec] at ih
    rw [List.flatten_cons, List.take_append, List.take_of_length_le hlength, ih]
  | case3 n segment later c left h =>
    have hlength : n < segment.length := by
      rw [← Nat.not_le]
      intro hle
      simp [List.drop_eq_nil_of_le hle] at h
    rw [List.flatten_cons, List.take_append_of_le_length (Nat.le_of_lt hlength)]

theorem read_fst (reader : Reader) (n : Nat) : (reader.read n).1 = reader.remaining.take n :=
  takeChars_fst n reader.pending

theorem isExhausted_iff (reader : Reader) : reader.isExhausted ↔ reader.remaining = [] := by
  simp [isExhausted, remaining, List.flatten_eq_nil_iff]

end Reader

namespace Feed

/-- The fault that draining the feed ends with, if the gate does not let everything
through. -/
def overflow? : Feed → Option ReadFault
  | plain _ => none
  | gated gate =>
    if gate.ceiling.toNat < gate.consumed + gate.reader.remaining.length then
      some (.tooManyCharacters gate.ceiling)
    else none

def InBounds : Feed → Prop
  | plain _ => True
  | gated gate => gate.consumed ≤ gate.ceiling.toNat

/-- What a read does: it fails on an overflow, gives nothing at the end only, and leaves
the overflow as it was. -/
theorem read_spec {n : Nat} (hn : 0 < n) {feed : Feed} (h : feed.InBounds) :
    match feed.read n with
    | .error fault => feed.overflow? = some fault
    | .ok (chars, next) =>
      next.InBounds ∧ next.overflow? = feed.overflow? ∧
        (chars = [] → feed.overflow? = none ∧ feed.reader.remaining = []) := by
  cases feed with
  | plain reader =>
    simp only [read]
    refine ⟨trivial, rfl, fun hnil => ⟨rfl, ?_⟩⟩
    rw [Reader.read_fst, List.take_eq_nil_iff] at hnil
    exact hnil.resolve_left (by omega)
  | gated gate =>
    have hconsumed : gate.consumed ≤ gate.ceiling.toNat := h
    by_cases hopen : gate.consumed < gate.ceiling.toNat
    · -- Short of the ceiling, a read lets through no more than the gate may.
      simp only [read, Gate.read, if_pos hopen, Except.map]
      have hpieces := congrArg List.length (gate.reader.read_append
        (min n (gate.ceiling.toNat - gate.consumed)))
      have hlength : (gate.reader.read (min n (gate.ceiling.toNat - gate.consumed))).1.length ≤
          gate.ceiling.toNat - gate.consumed := by
        rw [Reader.read_fst, List.length_take]
        omega
      rw [List.length_append] at hpieces
      refine ⟨?_, ?_, fun hnil => ?_⟩
      · simp only [InBounds]
        omega
      · simp only [overflow?]
        rw [Nat.add_assoc, hpieces]
      · rw [Reader.read_fst, List.take_eq_nil_iff] at hnil
        have hremaining := hnil.resolve_left (by omega)
        exact ⟨by simp [overflow?, hremaining, hconsumed], hremaining⟩
    · -- At the ceiling the reader must be at its end.
      by_cases hend : gate.reader.isExhausted
      · have hremaining := (Reader.isExhausted_iff _).1 hend
        simp only [read, Gate.read, if_neg hopen, if_pos hend, Except.map]
        refine ⟨h, trivial, fun _ => ⟨?_, hremaining⟩⟩
        simp [overflow?, hremaining, hconsumed]
      · simp only [read, Gate.read, if_neg hopen, if_neg hend, Except.map]
        have hremaining : gate.reader.remaining ≠ [] := fun hnil =>
          hend ((Reader.isExhausted_iff _).2 hnil)
        have hlength := List.length_pos_iff.2 hremaining
        simp only [overflow?]
        rw [if_pos (by omega)]

/-- Draining a feed gives all that is left, unless the gate fails. -/
theorem drainInto_fst (text : String) (feed : Feed) (h : feed.InBounds) :
    (drainInto text feed).1 =
      match feed.overflow? with
      | some fault => .error fault
      | none => .ok (text ++ String.ofList feed.reader.remaining) := by
  have hsize : 0 < chunkSize := by decide
  fun_induction drainInto text feed with
  | case1 text feed fault hread =>
    have hspec := read_spec hsize h
    rw [hread] at hspec
    simp [hspec]
  | case2 text feed next hread =>
    have hspec := read_spec hsize h
    rw [hread] at hspec
    obtain ⟨hoverflow, hremaining⟩ := hspec.2.2 rfl
    simp [hoverflow, hremaining]
  | case3 text feed c chars next hread _ ih =>
    have hspec := read_spec hsize h
    rw [hread] at hspec
    obtain ⟨hbounds, hoverflow, _⟩ := hspec
    rw [ih hbounds, hoverflow, ← read_append hread, String.ofList_append, String.append_assoc]

end Feed

theorem Source.text_toList (source : Source) :
    source.text.toList = source.reader.remaining := by
  -- The text before the segments must be any, since it grows along the fold.
  have hfold (text : String) (segments : List Segment) :
      (segments.foldl (fun text segment => text ++ segment.content) text).toList =
        text.toList ++ (segments.map (·.content.toList)).flatten := by
    induction segments generalizing text with
    | nil => simp
    | cons segment segments ih => simp [ih]
  rw [Source.text, hfold, String.toList_empty, List.nil_append]
  rfl

/-- The text of a source under limits, or the fault of the gate. -/
theorem readText_eq (limits : Limits) (source : Source) :
    readText limits source =
      match limits.charCeiling?.filter (·.toNat < source.text.length) with
      | some ceiling => .error { cause := .unreadable (.tooManyCharacters ceiling) }
      | none => .ok source.text := by
  have htext : "" ++ String.ofList source.reader.remaining = source.text := by
    rw [← source.text_toList, String.ofList_toList, String.empty_append]
  have hlength : source.reader.remaining.length = source.text.length := by
    rw [← source.text_toList, String.length_toList]
  simp only [readText]
  cases hceiling : limits.charCeiling? with
  | none =>
    rw [Feed.drain, Feed.drainInto_fst _ (.plain source.reader) trivial]
    simp [Feed.overflow?, Feed.reader, htext]
  | some ceiling =>
    rw [Feed.drain, Feed.drainInto_fst _ _ (Nat.zero_le _)]
    by_cases hover : ceiling.toNat < source.text.length
    · simp [Feed.overflow?, hlength, Option.filter, hover]
    · simp [Feed.overflow?, Feed.reader, hlength, Option.filter, hover, htext]

end GuardedQuery
