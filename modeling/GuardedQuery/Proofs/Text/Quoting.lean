import GuardedQuery.Text.Quoted

/-! # Quoted text can be read back

No two texts look alike between quotes, whichever characters are printable, and quoted text
stands on one line.

- `Text.QuotedAs`: the three ways to write a character between quotes.
- `Text.QuotedAs.append_inj`: no way to write a character starts another.
- `Text.quoted_injective`, `Text.newline_notMem_quoted`: whole texts.
-/

namespace GuardedQuery.Text

/-! ## Code points -/

theorem exists_digitChar_of_mem_toDigits {n : Nat} {c : Char} (h : c ∈ Nat.toDigits 16 n) :
    ∃ digit, c = Nat.digitChar digit := by
  induction n using Nat.strongRecOn with
  | ind n ih =>
    rw [Nat.toDigits_eq_if (by omega)] at h
    split at h
    · exact ⟨n, by simpa using h⟩
    · rcases List.mem_append.mp h with h | h
      · exact ih (n / 16) (by omega) h
      · exact ⟨n % 16, by simpa using h⟩

theorem brace_notMem_toDigits (n : Nat) : '\x7d' ∉ Nat.toDigits 16 n := by
  intro h
  obtain ⟨digit, hdigit⟩ := exists_digitChar_of_mem_toDigits h
  exact Nat.digitChar_ne '\x7d' (by decide) hdigit.symm

theorem newline_notMem_toDigits (n : Nat) : '\n' ∉ Nat.toDigits 16 n := by
  intro h
  obtain ⟨digit, hdigit⟩ := exists_digitChar_of_mem_toDigits h
  exact Nat.digitChar_ne '\n' (by decide) hdigit.symm

theorem digitChar_inj_of_lt {a b : Nat} (ha : a < 16) (hb : b < 16)
    (h : Nat.digitChar a = Nat.digitChar b) : a = b := by
  have hall : ∀ a < 16, ∀ b < 16, Nat.digitChar a = Nat.digitChar b → a = b := by decide
  exact hall a ha b hb h

theorem toDigits_injective : Function.Injective (Nat.toDigits 16) := by
  intro n
  induction n using Nat.strongRecOn with
  | ind n ih =>
    intro m h
    rw [Nat.toDigits_eq_if (by omega), Nat.toDigits_eq_if (n := m) (by omega)] at h
    split at h <;> split at h
    · next hn hm => exact digitChar_inj_of_lt hn hm (by simpa using h)
    · -- One digit is no longer number, which has another digit in front.
      have hlength := congrArg List.length h
      simp at hlength
    · have hlength := congrArg List.length h
      simp at hlength
    · obtain ⟨hfront, hlast⟩ := List.append_inj' h rfl
      have hdiv : n / 16 = m / 16 := ih (n / 16) (by omega) hfront
      have hmod : n % 16 = m % 16 :=
        digitChar_inj_of_lt (by omega) (by omega) (by simpa using hlast)
      omega

/-! ## Characters -/

def letters : List (Char × Char) :=
  [('\x00', '0'), ('\t', 't'), ('\r', 'r'), ('\n', 'n'), ('"', '"'), ('\\', '\\')]

inductive QuotedAs (c : Char) : List Char → Prop where
  | plain (hquote : c ≠ '"') (hbackslash : c ≠ '\\') (hline : c ≠ '\n') : QuotedAs c [c]
  | letter {letter : Char} (h : (c, letter) ∈ letters) : QuotedAs c ['\\', letter]
  | codePoint : QuotedAs c (codePointEscape c)

theorem quotedChar_quotedAs (c : Char) : QuotedAs c (quotedChar c) := by
  unfold quotedChar
  split
  case h_7 _ _ hline hquote hbackslash =>
    split
    · exact .plain hquote hbackslash hline
    · exact .codePoint
  all_goals exact .letter (by decide)

theorem letters_inj {c d letter : Char} (hc : (c, letter) ∈ letters)
    (hd : (d, letter) ∈ letters) : c = d := by
  have hall : ∀ p ∈ letters, ∀ q ∈ letters, p.2 = q.2 → p.1 = q.1 := by decide
  exact hall _ hc _ hd rfl

theorem letter_ne {c letter : Char} (h : (c, letter) ∈ letters) : letter ≠ 'u' ∧ letter ≠ '\n' := by
  have hall : ∀ p ∈ letters, p.2 ≠ 'u' ∧ p.2 ≠ '\n' := by decide
  exact hall _ h

/-- What stands in front of the first sign of a kind, and what behind it. -/
theorem append_cons_inj {sign : Char} {xs ys rest more : List Char} (hx : sign ∉ xs)
    (hy : sign ∉ ys) (h : xs ++ sign :: rest = ys ++ sign :: more) : xs = ys ∧ rest = more := by
  induction xs generalizing ys with
  | nil =>
    cases ys with
    | nil => exact ⟨rfl, (List.cons.inj h).2⟩
    | cons y ys => exact absurd (List.cons.inj h).1 (List.ne_of_not_mem_cons hy)
  | cons x xs ih =>
    cases ys with
    | nil => exact absurd (List.cons.inj h).1.symm (List.ne_of_not_mem_cons hx)
    | cons y ys =>
      obtain ⟨rfl, htail⟩ := List.cons.inj h
      obtain ⟨rfl, hrest⟩ :=
        ih (List.not_mem_of_not_mem_cons hx) (List.not_mem_of_not_mem_cons hy) htail
      exact ⟨rfl, hrest⟩

/-- What starts with a code point in hexadecimal starts with no other. -/
theorem codePointEscape_append_inj {c d : Char} {rest more : List Char}
    (h : codePointEscape c ++ rest = codePointEscape d ++ more) : c = d ∧ rest = more := by
  simp only [codePointEscape, List.cons_append, List.append_assoc, List.cons.injEq, true_and,
    List.nil_append] at h
  obtain ⟨hdigits, hrest⟩ :=
    append_cons_inj (brace_notMem_toDigits _) (brace_notMem_toDigits _) h
  exact ⟨Char.toNat_inj.mp (toDigits_injective hdigits), hrest⟩

namespace QuotedAs

variable {c d : Char} {written other rest more : List Char}

/-- No way to write a character starts another. -/
theorem append_inj (hc : QuotedAs c written) (hd : QuotedAs d other)
    (h : written ++ rest = other ++ more) : c = d ∧ rest = more := by
  cases hc with
  | plain _ hbackslash =>
    cases hd with
    | plain => simpa using h
    | letter _ | codePoint => exact absurd (List.cons.inj h).1 hbackslash
  | letter hletter =>
    cases hd with
    | plain _ hbackslash => exact absurd (List.cons.inj h).1.symm hbackslash
    | letter hother =>
      simp only [List.cons_append, List.nil_append, List.cons.injEq, true_and] at h
      obtain ⟨rfl, hrest⟩ := h
      exact ⟨letters_inj hletter hother, hrest⟩
    | codePoint => exact absurd (List.cons.inj (List.cons.inj h).2).1 (letter_ne hletter).1
  | codePoint =>
    cases hd with
    | plain _ hbackslash => exact absurd (List.cons.inj h).1.symm hbackslash
    | letter hother =>
      exact absurd (List.cons.inj (List.cons.inj h).2).1.symm (letter_ne hother).1
    | codePoint => exact codePointEscape_append_inj h

theorem head_ne (h : QuotedAs c written) : written ++ rest ≠ '"' :: more := by
  cases h with
  | plain hquote => simp [hquote]
  | letter _ => simp
  | codePoint => simp [codePointEscape]

theorem newline_notMem (h : QuotedAs c written) : '\n' ∉ written := by
  cases h with
  | plain _ _ hline => simpa using hline.symm
  | letter hletter => simpa using (letter_ne hletter).2.symm
  | codePoint => simp [codePointEscape, newline_notMem_toDigits]

end QuotedAs

/-! ## Texts -/

/-- The closing quote ends the text: it starts no character. -/
theorem flatMap_quotedChar_inj {xs ys : List Char}
    (h : xs.flatMap quotedChar ++ ['"'] = ys.flatMap quotedChar ++ ['"']) : xs = ys := by
  induction xs generalizing ys with
  | nil =>
    cases ys with
    | nil => rfl
    | cons y ys =>
      rw [List.flatMap_cons, List.append_assoc] at h
      exact absurd h.symm (quotedChar_quotedAs y).head_ne
  | cons x xs ih =>
    cases ys with
    | nil =>
      rw [List.flatMap_cons, List.append_assoc] at h
      exact absurd h (quotedChar_quotedAs x).head_ne
    | cons y ys =>
      rw [List.flatMap_cons, List.flatMap_cons, List.append_assoc, List.append_assoc] at h
      obtain ⟨rfl, hrest⟩ := (quotedChar_quotedAs x).append_inj (quotedChar_quotedAs y) h
      rw [ih hrest]

theorem toList_quoted (text : String) :
    (quoted text).toList = '"' :: (text.toList.flatMap quotedChar ++ ['"']) := by
  rw [quoted, String.toList_ofList]

theorem quoted_injective : Function.Injective quoted := by
  intro a b h
  have hlist := congrArg String.toList h
  rw [toList_quoted, toList_quoted] at hlist
  exact String.toList_inj.mp (flatMap_quotedChar_inj (List.cons.inj hlist).2)

theorem newline_notMem_quoted (text : String) : '\n' ∉ (quoted text).toList := by
  rw [toList_quoted]
  simp [(quotedChar_quotedAs _).newline_notMem]

end GuardedQuery.Text
