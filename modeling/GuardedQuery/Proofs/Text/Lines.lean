import GuardedQuery.Source.Location
import Mathlib.Data.List.DropRight

/-! # Lines

Which part of a text stands in front of a byte, how many lines end in it, and what stands
behind the last of these ends.

- `Text.InFront`: what stands in front of a byte.
- `Text.lineEnds`, `Text.lastLine`: the lines of a text.
- `Text.lineEnds_concat`, `Text.lastLine_concat`: one character more.
- `LineCursor.behind_eq`: where a cursor is behind a text, unless a word overflows.
-/

namespace GuardedQuery

namespace Text

/-! ## In front of a byte -/

/-- `front` stands in front of byte `n`.  If the byte is inside a character, all of that
character is left out. -/
structure InFront (n : Nat) (chars front : List Char) : Prop where
  leads : front <+: chars
  fits : byteLength front ≤ n
  longest (other : List Char) (hleads : other <+: chars) (hfits : byteLength other ≤ n) :
    other <+: front

theorem inFront_takeBytes (n : Nat) (chars : List Char) : InFront n chars (takeBytes n chars) := by
  induction chars generalizing n with
  | nil => exact ⟨List.prefix_rfl, by simp, fun _ hleads _ => hleads⟩
  | cons c rest ih =>
    rw [takeBytes_cons]
    by_cases hfits : c.utf8Size ≤ n
    · obtain ⟨leads, fits, longest⟩ := ih (n - c.utf8Size)
      rw [if_pos hfits]
      refine ⟨List.cons_prefix_cons.2 ⟨rfl, leads⟩, ?_, fun other hleads hother => ?_⟩
      · rw [byteLength_cons]
        omega
      · cases other with
        | nil => exact List.nil_prefix
        | cons d other =>
          obtain ⟨rfl, hrest⟩ := List.cons_prefix_cons.1 hleads
          rw [byteLength_cons] at hother
          exact List.cons_prefix_cons.2 ⟨rfl, longest other hrest (by omega)⟩
    · rw [if_neg hfits]
      refine ⟨List.nil_prefix, Nat.zero_le n, fun other hleads hother => ?_⟩
      cases other with
      | nil => exact List.prefix_rfl
      | cons d other =>
        obtain ⟨rfl, -⟩ := List.cons_prefix_cons.1 hleads
        rw [byteLength_cons] at hother
        omega

theorem InFront.unique {n : Nat} {chars front other : List Char} (h : InFront n chars front)
    (h' : InFront n chars other) : front = other :=
  (h'.longest front h.leads h.fits).eq_of_length_le
    (h.longest other h'.leads h'.fits).length_le

theorem length_le_byteLength (chars : List Char) : chars.length ≤ byteLength chars := by
  induction chars with
  | nil => simp
  | cons c rest ih =>
    have hpos := c.utf8Size_pos
    rw [List.length_cons, byteLength_cons]
    omega

/-! ## The ends of lines -/

def isLineEnd (c : Char) : Bool :=
  c = '\n' ∨ c = '\r'

/-- How many lines end in a text: at a line feed, at a carriage return, and once at the pair
of them. -/
def lineEnds : List Char → Nat
  | [] => 0
  | '\r' :: '\n' :: rest => lineEnds rest + 1
  | c :: rest => lineEnds rest + if isLineEnd c then 1 else 0

def lastLine (chars : List Char) : List Char :=
  chars.rtakeWhile (!isLineEnd ·)

@[simp] theorem lineEnds_nil : lineEnds [] = 0 := by
  rw [lineEnds]

theorem lineEnds_pair (rest : List Char) : lineEnds ('\r' :: '\n' :: rest) = lineEnds rest + 1 := by
  rw [lineEnds]

theorem lineEnds_cons {c : Char} {rest : List Char} (h : c = '\r' → rest.head? ≠ some '\n') :
    lineEnds (c :: rest) = lineEnds rest + if isLineEnd c then 1 else 0 := by
  rw [lineEnds]
  rintro next rfl rfl
  exact h rfl rfl

theorem lineEnds_singleton (c : Char) : lineEnds [c] = if isLineEnd c then 1 else 0 := by
  rw [lineEnds_cons (by simp), lineEnds_nil, Nat.zero_add]

/-- A line feed behind a carriage return ends no line of its own. -/
theorem lineEnds_concat (chars : List Char) (c : Char) :
    lineEnds (chars ++ [c]) =
      lineEnds chars +
        if c = '\n' ∧ chars.getLast? = some '\r' then 0 else if isLineEnd c then 1 else 0 := by
  fun_induction lineEnds chars with
  | case1 => simp [lineEnds_singleton]
  | case2 rest ih =>
    have hlast : ('\r' :: '\n' :: rest).getLast? = some '\r' ↔ rest.getLast? = some '\r' := by
      cases rest <;> simp
    simp only [List.cons_append, lineEnds_pair, ih, hlast]
    rw [Nat.add_right_comm]
  | case3 d rest hpair ih =>
    cases rest with
    | nil =>
      by_cases hc : d = '\r' ∧ c = '\n'
      · obtain ⟨rfl, rfl⟩ := hc
        simp [lineEnds_pair, isLineEnd]
      · have hlast : ¬ (c = '\n' ∧ d = '\r') := fun h => hc h.symm
        simp only [List.cons_append, List.nil_append, List.getLast?_singleton, Option.some.injEq]
        rw [lineEnds_cons (by simpa using hc), if_neg hlast, lineEnds_singleton, lineEnds_nil,
          Nat.zero_add, Nat.add_comm]
    | cons e rest =>
      have hnext : d = '\r' → ((e :: rest) ++ [c]).head? ≠ some '\n' := by
        rintro rfl hhead
        exact hpair rest rfl (by rw [Option.some.inj hhead])
      rw [List.cons_append, lineEnds_cons hnext, ih, List.getLast?_cons_cons, Nat.add_right_comm]

theorem lineEnds_le_length (chars : List Char) : lineEnds chars ≤ chars.length := by
  fun_induction lineEnds chars with
  | case1 => simp
  | case2 rest ih =>
    simp only [List.length_cons]
    omega
  | case3 d rest _ ih =>
    rw [List.length_cons]
    split <;> omega

theorem lastLine_concat (chars : List Char) (c : Char) :
    lastLine (chars ++ [c]) = if isLineEnd c then [] else lastLine chars ++ [c] := by
  rw [lastLine, List.rtakeWhile_concat]
  cases isLineEnd c <;> rfl

theorem lastLine_eq_nil {chars : List Char} (h : chars.getLast? = some '\r') :
    lastLine chars = [] := by
  obtain ⟨front, rfl⟩ := List.getLast?_eq_some_iff.1 h
  exact lastLine_concat front '\r'

theorem length_lastLine_le (chars : List Char) : (lastLine chars).length ≤ chars.length :=
  (List.rtakeWhile_suffix _ _).length_le

end Text

/-! ## Cursors -/

namespace LineCursor

open Source (maxSize)

theorem count_eq_none_iff (word : UInt32) : count word = none ↔ word.toNat = maxSize := by
  simp [count, maxSize, ← UInt32.toNat_inj]

/-- A word below the greatest is counted up. -/
theorem count_ofNat {n : Nat} (h : n < maxSize) :
    count (.ofNat n) = some (.ofNat (n + 1)) := by
  have hmax : maxSize < UInt32.size := by decide
  have hexact : (UInt32.ofNat n).toNat = n := UInt32.toNat_ofNat_of_lt' (by omega)
  have hless : ¬ count (.ofNat n) = none := by
    rw [count_eq_none_iff, hexact]
    omega
  rw [count] at hless ⊢
  split at hless
  · exact absurd rfl hless
  · next hword => rw [if_neg hword, UInt32.ofNat_add, UInt32.ofNat_one]

theorem behind_concat (chars : List Char) (c : Char) :
    behind (chars ++ [c]) = (behind chars).bind (·.step c) := by
  simp [behind, List.foldlM_append]

/-- The cursor behind a text has counted the ends of its lines and the characters behind the
last of them.  Within as many characters as the greatest word, only a line can overflow, and
only where each character ends one. -/
theorem behind_eq {chars : List Char} (h : chars.length ≤ maxSize) :
    behind chars =
      if Text.lineEnds chars = maxSize then none
      else some
        { line := .ofNat (1 + Text.lineEnds chars)
          column := .ofNat (Text.lastLine chars).length
          afterReturn := chars.getLast? = some '\r' } := by
  induction chars using List.reverseRecOn with
  | nil => rfl
  | append_singleton chars c ih =>
    rw [List.length_append, List.length_singleton] at h
    have hlines := Text.lineEnds_le_length chars
    have hcolumn := Text.length_lastLine_le chars
    rw [behind_concat, ih (by omega), if_neg (by omega), Option.bind_some, step,
      Text.lineEnds_concat, Text.lastLine_concat, List.getLast?_concat]
    by_cases hpair : c = '\n' ∧ chars.getLast? = some '\r'
    · -- The line has ended at the carriage return, and nothing stands behind it.
      obtain ⟨rfl, hlast⟩ := hpair
      have hless : ¬ Text.lineEnds chars = maxSize := by omega
      simp [hlast, Text.lastLine_eq_nil hlast, Text.isLineEnd, hless]
    · have hopen : ¬ (c = '\n' ∧ decide (chars.getLast? = some '\r') = true) := by
        simpa using hpair
      rw [if_neg hopen, if_neg hpair]
      by_cases hend : c = '\n' ∨ c = '\r'
      · have hend' : Text.isLineEnd c = true := decide_eq_true hend
        simp only [if_pos hend, hend', if_true, List.length_nil, Option.some.injEq]
        by_cases hlast : Text.lineEnds chars + 1 = maxSize
        · rw [if_pos hlast, (count_eq_none_iff _).2, Option.map_none]
          rw [UInt32.toNat_ofNat_of_lt' (by rw [Nat.add_comm, hlast]; decide), Nat.add_comm, hlast]
        · rw [if_neg hlast, count_ofNat (by omega), Option.map_some, Nat.add_assoc]
          rfl
      · have hother : Text.isLineEnd c = false := decide_eq_false hend
        have hreturn : c ≠ '\r' := fun h => hend (.inr h)
        rw [if_neg hend, count_ofNat (by omega), if_neg (by simp [hother]; omega)]
        simp [hreturn, hother]

end LineCursor

end GuardedQuery
