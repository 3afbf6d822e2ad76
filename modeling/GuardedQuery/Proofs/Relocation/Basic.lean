import GuardedQuery.Proofs.Grammar.Derivation
import Mathlib.Order.Monotone.Basic

/-! # Moving tokens

The same tokens can stand at other places, with more or less between them.  Whatever is
made of tokens can be moved with them.

- `Relocation`: where starts and ends of tokens are moved to.
- `Relocation.forget`: everything at one place.
- `Token.relocate`, `Tree.relocate`: moved tokens and trees.
- `Derives.relocate`: what the grammar derives it also derives elsewhere.
- `pack`: tokens without anything between them.
- `exists_relocation`: all spaced tokens are packed tokens, moved apart.
-/

namespace GuardedQuery

/-! ## Relocations -/

structure Relocation where
  start : Nat → Nat
  stop : Nat → Nat

namespace Relocation

def range (r : Relocation) (range : ByteRange) : ByteRange :=
  ⟨r.start range.start, r.stop range.stop⟩

def comp (s r : Relocation) : Relocation :=
  ⟨s.start ∘ r.start, s.stop ∘ r.stop⟩

/-- Everything is moved to one place, so that only what is said counts. -/
def forget : Relocation :=
  ⟨fun _ => 0, fun _ => 0⟩

structure Ordered (r : Relocation) : Prop where
  start : StrictMono r.start
  stop : StrictMono r.stop

theorem Ordered.range_injective {r : Relocation} (h : r.Ordered) :
    Function.Injective r.range := by
  rintro ⟨start, stop⟩ ⟨start', stop'⟩ heq
  obtain ⟨hstart, hstop⟩ := ByteRange.mk.inj heq
  rw [ByteRange.mk.injEq]
  exact ⟨h.start.injective hstart, h.stop.injective hstop⟩

end Relocation

variable {r : Relocation}

/-! ## Moved tokens -/

namespace Token

def relocate (r : Relocation) (token : Token) : Token :=
  { token with start := r.start token.start }

@[simp] theorem start_relocate (token : Token) :
    (token.relocate r).start = r.start token.start := rfl

@[simp] theorem text_relocate (token : Token) : (token.relocate r).text = token.text := rfl

def Fits (r : Relocation) (token : Token) : Prop :=
  (token.relocate r).stop = r.stop token.stop

end Token

/-! ## Moved trees -/

namespace Tree

mutual

def relocate (r : Relocation) : Tree → Tree
  | leaf token => leaf (token.relocate r)
  | node kind children => node kind (relocateAll r children)

def relocateAll (r : Relocation) : List Tree → List Tree
  | [] => []
  | tree :: trees => relocate r tree :: relocateAll r trees

end

theorem relocateAll_eq_map (trees : List Tree) : relocateAll r trees = trees.map (relocate r) := by
  induction trees with
  | nil => rfl
  | cons tree trees ih => rw [relocateAll, List.map_cons, ih]

@[simp] theorem relocateAll_append (trees more : List Tree) :
    relocateAll r (trees ++ more) = relocateAll r trees ++ relocateAll r more := by
  simp [relocateAll_eq_map]

mutual

theorem leaves_relocate : ∀ tree : Tree,
    (tree.relocate r).leaves = tree.leaves.map (Token.relocate r)
  | leaf _ => rfl
  | node _ children => by
    simp [relocate, allLeaves_relocateAll children]

theorem allLeaves_relocateAll : ∀ trees : List Tree,
    allLeaves (relocateAll r trees) = (allLeaves trees).map (Token.relocate r)
  | [] => rfl
  | tree :: trees => by
    simp [relocateAll, leaves_relocate tree, allLeaves_relocateAll trees]

end

end Tree

/-- What the grammar derives it also derives elsewhere. -/
theorem Grammar.Derives.relocate (r : Relocation) {pattern : Pattern} {trees : List Tree}
    (h : Derives pattern trees) : Derives pattern (Tree.relocateAll r trees) := by
  induction h with
  | empty => exact .empty
  | token h => exact .token h
  | rule _ ih => exact .rule ih
  | left _ ih => exact .left ih
  | right _ ih => exact .right ih
  | absent => exact .absent
  | present _ ih => exact .present ih
  | done => exact .done
  | both _ _ ihfirst ihsecond =>
    rw [Tree.relocateAll_append]
    exact .both ihfirst ihsecond
  | more _ _ ih ihmore =>
    rw [Tree.relocateAll_append]
    exact .more ih ihmore

/-! ## Packed tokens -/

def pack (offset : Nat) : List Lexeme → List Token
  | [] => []
  | lexeme :: lexemes =>
    ⟨lexeme.kind, offset, lexeme.text⟩ :: pack (offset + lexeme.text.utf8ByteSize) lexemes

def Spaced (offset : Nat) : List Token → Prop
  | [] => True
  | token :: tokens => offset ≤ token.start ∧ token.text ≠ "" ∧ Spaced token.stop tokens

theorem lexeme_pack (offset : Nat) (lexemes : List Lexeme) :
    (pack offset lexemes).map Token.lexeme = lexemes := by
  induction lexemes generalizing offset with
  | nil => rfl
  | cons lexeme lexemes ih => simp [pack, ih, Token.lexeme]

theorem le_start_of_mem_pack {offset : Nat} {lexemes : List Lexeme} {token : Token}
    (h : token ∈ pack offset lexemes) : offset ≤ token.start := by
  induction lexemes generalizing offset with
  | nil => cases h
  | cons lexeme lexemes ih =>
    rcases List.mem_cons.mp h with rfl | h
    · exact Nat.le_refl _
    · exact Nat.le_trans (Nat.le_add_right _ _) (ih h)

theorem Spaced.size_pos {offset : Nat} {tokens : List Token} (h : Spaced offset tokens) :
    ∀ token ∈ tokens, 0 < token.text.utf8ByteSize := by
  induction tokens generalizing offset with
  | nil => simp
  | cons token tokens ih =>
    obtain ⟨-, htext, htokens⟩ := h
    refine List.forall_mem_cons.mpr ⟨?_, ih htokens⟩
    rwa [Nat.pos_iff_ne_zero, ne_eq, String.utf8ByteSize_eq_zero_iff]

theorem Spaced.size_pos_of_mem_pack {offset start : Nat} {tokens : List Token} {token : Token}
    (h : Spaced offset tokens) (hmem : token ∈ pack start (tokens.map Token.lexeme)) :
    0 < token.text.utf8ByteSize := by
  have hlexeme := List.mem_map_of_mem (f := Token.lexeme) hmem
  rw [lexeme_pack] at hlexeme
  obtain ⟨other, hother, heq⟩ := List.mem_map.mp hlexeme
  rw [← (Lexeme.mk.inj heq).2]
  exact h.size_pos other hother

namespace Relocation

def ofGap (gap : Nat → Nat) : Relocation :=
  ⟨fun offset => offset + gap offset, fun offset => offset + gap (offset - 1)⟩

theorem ordered_ofGap {gap : Nat → Nat} (h : Monotone gap) : (ofGap gap).Ordered where
  start a b hlt := by
    have hgap := h hlt.le
    simp only [ofGap]
    omega
  stop a b hlt := by
    have hgap := h (Nat.sub_le_sub_right hlt.le 1)
    simp only [ofGap]
    omega

def gapUpTo (bound here : Nat) (later : Nat → Nat) (place : Nat) : Nat :=
  if place < bound then here else later place

section gapUpTo

variable {bound here place : Nat} {later : Nat → Nat}

theorem gapUpTo_of_lt (here : Nat) (later : Nat → Nat) (h : place < bound) :
    gapUpTo bound here later place = here :=
  if_pos h

theorem gapUpTo_of_le (here : Nat) (later : Nat → Nat) (h : bound ≤ place) :
    gapUpTo bound here later place = later place :=
  if_neg (Nat.not_lt.mpr h)

theorem le_gapUpTo {least : Nat} (hhere : least ≤ here) (hlater : ∀ place, least ≤ later place)
    (place : Nat) : least ≤ gapUpTo bound here later place := by
  rw [gapUpTo]
  split
  · exact hhere
  · exact hlater place

theorem monotone_gapUpTo (hlater : Monotone later) (hleast : ∀ place, here ≤ later place) :
    Monotone (gapUpTo bound here later) := by
  intro a b hle
  by_cases ha : a < bound
  · rw [gapUpTo_of_lt here later ha]
    exact le_gapUpTo (Nat.le_refl _) hleast b
  · have ha := Nat.not_lt.mp ha
    rw [gapUpTo_of_le here later ha, gapUpTo_of_le here later (ha.trans hle)]
    exact hlater hle

end gapUpTo

end Relocation

/-- A token only sees the gaps at its start and at its last byte. -/
theorem Token.relocate_ofGap_congr {token : Token} {gap other : Nat → Nat}
    (h : gap token.start = other token.start) :
    token.relocate (.ofGap gap) = token.relocate (.ofGap other) := by
  simp [relocate, Relocation.ofGap, h]

theorem Token.fits_ofGap_iff {token : Token} {gap : Nat → Nat} :
    token.Fits (.ofGap gap) ↔ gap token.start = gap (token.stop - 1) := by
  simp only [Fits, stop, relocate, Relocation.ofGap]
  omega

/-- Tokens that stand apart are packed tokens, each moved on by a gap that grows from token
to token. -/
theorem exists_gap {offset least : Nat} {tokens : List Token}
    (h : Spaced (offset + least) tokens) :
    ∃ gap : Nat → Nat, Monotone gap ∧ (∀ place, least ≤ gap place) ∧
      (pack offset (tokens.map Token.lexeme)).map (Token.relocate (.ofGap gap)) = tokens ∧
      ∀ token ∈ pack offset (tokens.map Token.lexeme), token.Fits (.ofGap gap) := by
  induction tokens generalizing offset least with
  | nil => exact ⟨fun _ => least, monotone_const, fun _ => Nat.le_refl _, rfl, by simp [pack]⟩
  | cons token tokens ih =>
    have hsize := h.size_pos token List.mem_cons_self
    obtain ⟨hstart, htext, htokens⟩ := h
    have hstop : token.stop = offset + token.text.utf8ByteSize + (token.start - offset) := by
      rw [Token.stop]
      omega
    rw [hstop] at htokens
    obtain ⟨later, hlater, hleast, hplaces, hfits⟩ := ih htokens
    -- The bytes of the token have its gap, those behind it the gaps of the tokens behind it.
    have hhere {place : Nat} (hplace : place < offset + token.text.utf8ByteSize) :=
      Relocation.gapUpTo_of_lt (token.start - offset) later hplace
    have hthere {place : Nat} (hplace : offset + token.text.utf8ByteSize ≤ place) :=
      Relocation.gapUpTo_of_le (token.start - offset) later hplace
    refine ⟨Relocation.gapUpTo (offset + token.text.utf8ByteSize) (token.start - offset) later,
      Relocation.monotone_gapUpTo hlater hleast, ?_, ?_, ?_⟩
    · have hfar : least ≤ token.start - offset := by omega
      exact Relocation.le_gapUpTo hfar fun place => hfar.trans (hleast place)
    · rw [List.map_cons, pack, List.map_cons, List.cons.injEq]
      constructor
      · have hgap : offset + (token.start - offset) = token.start := by omega
        simp [Token.relocate, Relocation.ofGap, hhere (Nat.lt_add_of_pos_right hsize), hgap]
      · refine Eq.trans (List.map_congr_left fun other hother => ?_) hplaces
        exact Token.relocate_ofGap_congr (hthere (le_start_of_mem_pack hother))
    · refine List.forall_mem_cons.mpr ⟨?_, fun other hother => ?_⟩
      · rw [Token.fits_ofGap_iff, hhere, hhere]
        · simp only [Token.stop, Token.lexeme_text]
          omega
        · simp only
          omega
      · have hafter := le_start_of_mem_pack hother
        have hlast : other.start ≤ other.stop - 1 := by
          have hpos := htokens.size_pos_of_mem_pack hother
          rw [Token.stop]
          omega
        rw [Token.fits_ofGap_iff, hthere hafter, hthere (hafter.trans hlast)]
        exact Token.fits_ofGap_iff.mp (hfits other hother)

theorem exists_relocation {tokens : List Token} (h : Spaced 0 tokens) :
    ∃ r : Relocation, r.Ordered ∧
      (pack 0 (tokens.map Token.lexeme)).map (Token.relocate r) = tokens ∧
      ∀ token ∈ pack 0 (tokens.map Token.lexeme), token.Fits r := by
  have hfar : Spaced (0 + 0) tokens := h
  obtain ⟨gap, hgap, -, hplaces, hfits⟩ := exists_gap hfar
  exact ⟨.ofGap gap, Relocation.ordered_ofGap hgap, hplaces, hfits⟩

end GuardedQuery
