/-! # Byte positions in text

Positions count UTF-8 bytes.  The functions here work on lists of characters,
so a cut never falls inside a character.

- `byteLength`: how many bytes a text takes.
- `takeBytes`: the longest leading part within a number of bytes.
- `dropBytes?`: what follows an exact number of bytes.
- `Divides`: the characters in front of a place of a string and behind it.
-/

namespace GuardedQuery.Text

def byteLength (chars : List Char) : Nat :=
  chars.foldl (fun n c => n + c.utf8Size) 0

/-- The longest leading part of at most `n` bytes.  A position inside a character
counts as the position before it. -/
def takeBytes (n : Nat) (chars : List Char) : List Char := go n chars []
where
  go : Nat → List Char → List Char → List Char
    | _, [], taken => taken.reverse
    | n, c :: rest, taken =>
      if c.utf8Size ≤ n then go (n - c.utf8Size) rest (c :: taken) else taken.reverse

/-- What follows the first `n` bytes, if `n` is the start of a character or the end. -/
def dropBytes? : Nat → List Char → Option (List Char)
  | 0, chars => some chars
  | _ + 1, [] => none
  | n + 1, c :: rest =>
    if c.utf8Size ≤ n + 1 then dropBytes? (n + 1 - c.utf8Size) rest else none

/-! ## Laws -/

theorem foldl_utf8Size (chars : List Char) (n : Nat) :
    chars.foldl (fun n c => n + c.utf8Size) n = n + byteLength chars := by
  unfold byteLength
  induction chars generalizing n with
  | nil => rfl
  | cons c rest ih => simp only [List.foldl_cons]; rw [ih, ih (0 + _)]; omega

@[simp] theorem byteLength_nil : byteLength [] = 0 := rfl

@[simp] theorem byteLength_cons (c : Char) (rest : List Char) :
    byteLength (c :: rest) = c.utf8Size + byteLength rest := by
  conv => lhs; unfold byteLength
  rw [List.foldl_cons, foldl_utf8Size]; omega

theorem byteLength_append (a b : List Char) :
    byteLength (a ++ b) = byteLength a + byteLength b := by
  induction a with
  | nil => simp
  | cons c rest ih => simp [ih]; omega

theorem byteLength_replicate (n : Nat) {c : Char} (hc : c.utf8Size = 1) :
    byteLength (List.replicate n c) = n := by
  induction n with
  | zero => rfl
  | succ n ih => rw [List.replicate_succ, byteLength_cons, hc, ih, Nat.add_comm]

theorem takeBytes_go (n : Nat) (chars taken : List Char) :
    takeBytes.go n chars taken = taken.reverse ++ takeBytes n chars := by
  unfold takeBytes
  induction chars generalizing n taken with
  | nil => simp [takeBytes.go]
  | cons c rest ih =>
    by_cases h : c.utf8Size ≤ n
    · simp only [takeBytes.go, h, ↓reduceIte]
      rw [ih, ih _ [c]]; simp
    · simp [takeBytes.go, h]

@[simp] theorem takeBytes_nil (n : Nat) : takeBytes n [] = [] := rfl

theorem takeBytes_cons (n : Nat) (c : Char) (rest : List Char) :
    takeBytes n (c :: rest) =
      if c.utf8Size ≤ n then c :: takeBytes (n - c.utf8Size) rest else [] := by
  conv => lhs; unfold takeBytes
  by_cases h : c.utf8Size ≤ n
  · simp [takeBytes.go, h, takeBytes_go]
  · simp [takeBytes.go, h]

@[simp] theorem dropBytes?_zero (chars : List Char) : dropBytes? 0 chars = some chars := by
  rw [dropBytes?]

theorem dropBytes?_append (front back : List Char) :
    dropBytes? (byteLength front) (front ++ back) = some back := by
  induction front with
  | nil => simp
  | cons c front ih =>
    have hpos := c.utf8Size_pos
    obtain ⟨n, hn⟩ : ∃ n, c.utf8Size + byteLength front = n + 1 :=
      ⟨c.utf8Size + byteLength front - 1, by omega⟩
    have hrest : n + 1 - c.utf8Size = byteLength front := by omega
    rw [byteLength_cons, List.cons_append, hn, dropBytes?, if_pos (by omega), hrest, ih]

theorem takeBytes_append (front back : List Char) :
    takeBytes (byteLength front) (front ++ back) = front := by
  induction front with
  | nil =>
    cases back with
    | nil => rfl
    | cons c back =>
      have hpos := c.utf8Size_pos
      rw [List.nil_append, takeBytes_cons, byteLength_nil, if_neg (by omega)]
  | cons c front ih =>
    rw [List.cons_append, takeBytes_cons, byteLength_cons, if_pos (by omega),
      Nat.add_sub_cancel_left, ih]

theorem byteLength_toList (text : String) : byteLength text.toList = text.utf8ByteSize := by
  rw [← String.ofList_toList (s := text), String.toList_ofList]
  induction text.toList with
  | nil => rfl
  | cons c chars ih =>
    have hcons : String.ofList (c :: chars) = String.singleton c ++ String.ofList chars := by
      rw [String.singleton_eq_ofList, ← String.ofList_append, List.singleton_append]
    rw [hcons, String.utf8ByteSize_append, String.utf8ByteSize_singleton, byteLength_cons, ih]

/-! ## Places

A text that is too long for its characters one by one is read in place. -/

def Divides {text : String} (place : text.Pos) (front back : List Char) : Prop :=
  place.Splits (String.ofList front) (String.ofList back)

namespace Divides

variable {text : String} {place : text.Pos} {front back : List Char} {c : Char}

theorem startPos (text : String) : Divides text.startPos [] text.toList := by
  rw [Divides, String.ofList_toList]
  exact text.splits_startPos

theorem eq_endPos_iff (h : Divides place front back) : place = text.endPos ↔ back = [] := by
  rw [Divides] at h
  rw [h.eq_endPos_iff, ← String.ofList_nil, String.ofList_inj]

theorem ne_endPos (h : Divides place front (c :: back)) : place ≠ text.endPos := by
  rw [ne_eq, h.eq_endPos_iff]
  exact List.cons_ne_nil c back

theorem next (h : Divides place front (c :: back)) {hend : place ≠ text.endPos} :
    Divides (place.next hend) (front ++ [c]) back := by
  rw [Divides, ← List.singleton_append, String.ofList_append, ← String.singleton_eq_ofList] at h
  rw [Divides, String.ofList_append, ← String.singleton_eq_ofList]
  exact h.next

theorem get (h : Divides place front (c :: back)) {hend : place ≠ text.endPos} :
    place.get hend = c := by
  have hnext : Divides (place.next hend) (front ++ [c]) back := h.next
  rw [Divides, String.ofList_append, ← String.singleton_eq_ofList] at hnext
  exact hnext.get_eq_of_singleton

theorem byteIdx (h : Divides place front back) : place.offset.byteIdx = byteLength front := by
  rw [h.offset_eq_rawEndPos, String.byteIdx_rawEndPos, ← byteLength_toList, String.toList_ofList]

end Divides

end GuardedQuery.Text
