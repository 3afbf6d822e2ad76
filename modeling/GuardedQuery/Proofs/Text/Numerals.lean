import GuardedQuery.Text.Blank
import GuardedQuery.Text.Decimal

/-! # Numerals

A numeral is a sign, if any, and one or more ASCII digits.  It denotes an integer of any
size, and the reader has to give just the ones between its bounds.  It may give up on the
way, since a numeral that goes on is never closer to zero than what was read of it.

- `Numeral`: the texts that are numerals, with the integers that they denote.
- `Denotes`: the same with blanks around the numeral.
- `readInteger_eq_ok_iff`: the reader gives the integers between its bounds.
- `readInt32?_trimBlanks`: with blanks trimmed, these are the signed 32-bit integers.
-/

namespace GuardedQuery.Text

/-! ## Numerals and what they denote -/

def IsDigits (chars : List Char) : Prop :=
  chars ≠ [] ∧ ∀ c ∈ chars, c.isDigit

/-- A sign, if any, and digits, with the integer that they denote. -/
inductive Numeral : List Char → Int → Prop where
  | unsigned {digits : List Char} (h : IsDigits digits) :
      Numeral digits (Nat.ofDigitChars 10 digits 0)
  | positive {digits : List Char} (h : IsDigits digits) :
      Numeral ('+' :: digits) (Nat.ofDigitChars 10 digits 0)
  | negative {digits : List Char} (h : IsDigits digits) :
      Numeral ('-' :: digits) (-Nat.ofDigitChars 10 digits 0)

/-- The text is a numeral of the integer, with nothing but blanks around it. -/
def Denotes (text : String) (number : Int) : Prop :=
  ∃ before numeral behind, text.toList = before ++ numeral ++ behind ∧
    (∀ c ∈ before, isBlank c) ∧ (∀ c ∈ behind, isBlank c) ∧ Numeral numeral number

/-! ## Digits -/

theorem digit?_eq (c : Char) :
    digit? c = if c.isDigit then some (c.toNat - '0'.toNat) else none := by
  have hdigit : ('0' ≤ c ∧ c ≤ '9') ↔ c.isDigit = true := by
    simp [Char.isDigit, Char.le_def]
  simp only [digit?, hdigit]

/-- Digits only lead away from zero. -/
theorem le_ofDigitChars (digits : List Char) (value : Nat) :
    value ≤ Nat.ofDigitChars 10 digits value := by
  induction digits generalizing value with
  | nil => simp
  | cons c rest ih =>
    rw [Nat.ofDigitChars_cons]
    have hrest := ih (10 * value + (c.toNat - '0'.toNat))
    omega

def signed (negative : Bool) (value : Nat) : Int :=
  if negative then -value else value

/-- Whatever leaves the bounds is left outside by more digits. -/
theorem signed_ofDigitChars_outside {low high : Int} (hlow : low ≤ 0) (hhigh : 0 ≤ high)
    {negative : Bool} {value : Nat} (digits : List Char)
    (h : ¬ (low ≤ signed negative value ∧ signed negative value ≤ high)) :
    ¬ (low ≤ signed negative (Nat.ofDigitChars 10 digits value) ∧
      signed negative (Nat.ofDigitChars 10 digits value) ≤ high) := by
  have hle := le_ofDigitChars digits value
  cases negative <;> simp only [signed, if_true, Bool.false_eq_true, if_false] at h ⊢ <;> omega

/-! ## Reading -/

section reading

variable {low high number : Int}

theorem readDigits_eq_ok_iff (hlow : low ≤ 0) (hhigh : 0 ≤ high) (negative : Bool)
    (digits : List Char) {value : Nat}
    (hvalue : low ≤ signed negative value ∧ signed negative value ≤ high) :
    readDigits low high negative (signed negative value) digits = .ok number ↔
      (∀ c ∈ digits, c.isDigit) ∧ signed negative (Nat.ofDigitChars 10 digits value) = number ∧
        low ≤ number ∧ number ≤ high := by
  -- What was read so far is any number within the bounds.
  induction digits generalizing value with
  | nil =>
    simp only [readDigits, Except.ok.injEq, List.not_mem_nil, false_implies, implies_true,
      true_and, Nat.ofDigitChars_nil]
    constructor
    · rintro rfl
      exact ⟨rfl, hvalue⟩
    · exact fun h => h.1
  | cons c rest ih =>
    rw [readDigits, digit?_eq, List.forall_mem_cons, Nat.ofDigitChars_cons]
    by_cases hdigit : c.isDigit
    · generalize c.toNat - '0'.toNat = digit
      have hnext : (if negative then signed negative value * 10 - digit
          else signed negative value * 10 + digit) = signed negative (10 * value + digit) := by
        cases negative <;> simp [signed] <;> omega
      simp only [hdigit, if_true, true_and, hnext]
      by_cases hinside : low ≤ signed negative (10 * value + digit) ∧
          signed negative (10 * value + digit) ≤ high
      · rw [if_neg (by omega), if_neg (by omega)]
        exact ih hinside
      · -- The reader gives up here, and what follows only leads further out.
        have houtside := signed_ofDigitChars_outside hlow hhigh rest hinside
        constructor
        · intro h
          split at h
          · cases h
          · rw [if_pos (by omega)] at h
            cases h
        · rintro ⟨-, rfl, hbounds⟩
          exact (houtside hbounds).elim
    · simp [hdigit]

/-- What a sign lets the digits behind it denote. -/
theorem readDigits_zero_eq_ok_iff (hlow : low ≤ 0) (hhigh : 0 ≤ high) (negative : Bool)
    {digits : List Char} (hdigits : digits ≠ []) :
    readDigits low high negative 0 digits = .ok number ↔
      (IsDigits digits ∧ signed negative (Nat.ofDigitChars 10 digits 0) = number) ∧
        low ≤ number ∧ number ≤ high := by
  have hzero : signed negative 0 = 0 := by cases negative <;> rfl
  have hbounds : low ≤ signed negative 0 ∧ signed negative 0 ≤ high := by
    rw [hzero]
    exact ⟨hlow, hhigh⟩
  have hread : readDigits low high negative (signed negative 0) digits = .ok number ↔ _ :=
    readDigits_eq_ok_iff hlow hhigh negative digits hbounds
  rw [hzero] at hread
  rw [hread, IsDigits, and_assoc, and_assoc]
  simp only [hdigits, ne_eq, not_false_eq_true, true_and]

theorem numeral_nil : ¬ Numeral [] number := by
  intro h
  cases h with
  | unsigned h => exact h.1 rfl

theorem numeral_positive (digits : List Char) :
    Numeral ('+' :: digits) number ↔
      IsDigits digits ∧ signed false (Nat.ofDigitChars 10 digits 0) = number := by
  constructor
  · intro h
    cases h with
    | unsigned h => exact absurd (h.2 '+' (by simp)) (by decide)
    | positive h => exact ⟨h, rfl⟩
  · rintro ⟨h, rfl⟩
    exact .positive h

theorem numeral_negative (digits : List Char) :
    Numeral ('-' :: digits) number ↔
      IsDigits digits ∧ signed true (Nat.ofDigitChars 10 digits 0) = number := by
  constructor
  · intro h
    cases h with
    | unsigned h => exact absurd (h.2 '-' (by simp)) (by decide)
    | negative h => exact ⟨h, rfl⟩
  · rintro ⟨h, rfl⟩
    exact .negative h

theorem numeral_unsigned {c : Char} (hpositive : c ≠ '+') (hnegative : c ≠ '-')
    (rest : List Char) :
    Numeral (c :: rest) number ↔
      IsDigits (c :: rest) ∧ signed false (Nat.ofDigitChars 10 (c :: rest) 0) = number := by
  constructor
  · intro h
    cases h with
    | unsigned h => exact ⟨h, rfl⟩
    | positive h => exact (hpositive rfl).elim
    | negative h => exact (hnegative rfl).elim
  · rintro ⟨h, rfl⟩
    exact .unsigned h

/-- Reading gives the integers of the numerals between the bounds, and reads nothing else. -/
theorem readInteger_eq_ok_iff (hlow : low ≤ 0) (hhigh : 0 ≤ high) (chars : List Char) :
    readInteger low high chars = .ok number ↔
      Numeral chars number ∧ low ≤ number ∧ number ≤ high := by
  cases chars with
  | nil => simp [readInteger, numeral_nil]
  | cons c rest =>
    by_cases hpositive : c = '+'
    · subst hpositive
      rw [numeral_positive]
      cases rest with
      | nil => simp [readInteger, IsDigits]
      | cons first rest =>
        rw [← readDigits_zero_eq_ok_iff hlow hhigh false (List.cons_ne_nil first rest)]
        rfl
    · by_cases hnegative : c = '-'
      · subst hnegative
        rw [numeral_negative]
        cases rest with
        | nil => simp [readInteger, IsDigits]
        | cons first rest =>
          rw [← readDigits_zero_eq_ok_iff hlow hhigh true (List.cons_ne_nil first rest)]
          rfl
      · rw [numeral_unsigned hpositive hnegative,
          ← readDigits_zero_eq_ok_iff hlow hhigh false (List.cons_ne_nil c rest)]
        simp [readInteger, hpositive, hnegative]

end reading

/-! ## Blanks around a numeral -/

theorem isBlank_of_isDigit {c : Char} (h : c.isDigit) : isBlank c = false := by
  rw [Char.isDigit_iff_toNat] at h
  simp [isBlank] at h ⊢
  omega

theorem Numeral.isBlank_eq_false {chars : List Char} {number : Int} (h : Numeral chars number) :
    ∀ c ∈ chars, isBlank c = false := by
  have hdigits {digits : List Char} (h : IsDigits digits) : ∀ c ∈ digits, isBlank c = false :=
    fun c member => isBlank_of_isDigit (h.2 c member)
  cases h with
  | unsigned h => exact hdigits h
  | positive h => exact List.forall_mem_cons.2 ⟨by decide, hdigits h⟩
  | negative h => exact List.forall_mem_cons.2 ⟨by decide, hdigits h⟩

theorem Numeral.ne_nil {chars : List Char} {number : Int} (h : Numeral chars number) :
    chars ≠ [] := by
  rintro rfl
  exact numeral_nil h

/-- Trimming takes away nothing but blanks at the two ends. -/
theorem exists_trimBlanks (chars : List Char) :
    ∃ before behind, chars = before ++ trimBlanks chars ++ behind ∧
      (∀ c ∈ before, isBlank c) ∧ ∀ c ∈ behind, isBlank c := by
  refine ⟨chars.takeWhile isBlank, ((chars.dropWhile isBlank).reverse.takeWhile isBlank).reverse,
    ?_, List.all_eq_true.1 List.all_takeWhile, fun c member => ?_⟩
  · rw [trimBlanks, List.append_assoc, ← List.reverse_append, List.takeWhile_append_dropWhile,
      List.reverse_reverse, List.takeWhile_append_dropWhile]
  · exact List.all_eq_true.1 List.all_takeWhile c (List.mem_reverse.1 member)

theorem dropWhile_isBlank {before chars : List Char} (hbefore : ∀ c ∈ before, isBlank c)
    (hchars : ∀ c ∈ chars, isBlank c = false) (hne : chars ≠ []) (behind : List Char) :
    (before ++ (chars ++ behind)).dropWhile isBlank = chars ++ behind := by
  rw [List.dropWhile_append_of_pos hbefore]
  cases chars with
  | nil => exact (hne rfl).elim
  | cons c chars => simp [hchars c List.mem_cons_self]

/-- Blanks around text without blanks are all trimmed. -/
theorem trimBlanks_append {before chars behind : List Char} (hbefore : ∀ c ∈ before, isBlank c)
    (hchars : ∀ c ∈ chars, isBlank c = false) (hne : chars ≠ [])
    (hbehind : ∀ c ∈ behind, isBlank c) : trimBlanks (before ++ chars ++ behind) = chars := by
  have hback : (behind.reverse ++ (chars.reverse ++ [])).dropWhile isBlank = chars.reverse ++ [] :=
    dropWhile_isBlank (by simpa using hbehind) (by simpa using hchars) (by simpa using hne) []
  rw [trimBlanks, List.append_assoc, dropWhile_isBlank hbefore hchars hne, List.reverse_append]
  rw [List.append_nil] at hback
  rw [hback, List.reverse_reverse]

theorem denotes_iff {text : String} {number : Int} :
    Denotes text number ↔ Numeral (trimBlanks text.toList) number := by
  constructor
  · rintro ⟨before, numeral, behind, htext, hbefore, hbehind, h⟩
    rwa [htext, trimBlanks_append hbefore h.isBlank_eq_false h.ne_nil hbehind]
  · intro h
    obtain ⟨before, behind, htext, hbefore, hbehind⟩ := exists_trimBlanks text.toList
    exact ⟨before, _, behind, htext, hbefore, hbehind, h⟩

/-- Trimmed and read as a signed 32-bit integer, a text gives the one that it denotes. -/
theorem readInt32?_trimBlanks {text : String} {value : Int32} :
    readInt32? (trimBlanks text.toList) = some value ↔ Denotes text value.toInt := by
  have hlow := Int32.minValue_le_toInt value
  have hhigh := Int32.toInt_le value
  have hread (number : Int) : readInteger Int32.minValue.toInt Int32.maxValue.toInt
      (trimBlanks text.toList) = .ok number ↔ Numeral (trimBlanks text.toList) number ∧
        Int32.minValue.toInt ≤ number ∧ number ≤ Int32.maxValue.toInt :=
    readInteger_eq_ok_iff (by decide) (by decide) _
  rw [denotes_iff, readInt32?]
  constructor
  · intro h
    split at h
    · next number hnumber =>
      obtain ⟨hnumeral, hnumberlow, hnumberhigh⟩ := (hread number).1 hnumber
      have hmax : Int32.maxValue.toInt = 2147483647 := by decide
      have hvalue : (Int32.ofInt number).toInt = number :=
        Int32.toInt_ofInt_of_le hnumberlow (by omega)
      rw [Option.some.injEq] at h
      rwa [← h, hvalue]
    · cases h
  · intro h
    rw [(hread value.toInt).2 ⟨h, hlow, hhigh⟩]
    simp

example : readInt32? (trimBlanks " -0002147483648\t".toList) = some Int32.minValue := by decide

end GuardedQuery.Text
