import Mathlib.Computability.Language
import GuardedQuery.Token.Automaton

/-! # The words of each kind

The tokens of every kind as a regular language, and what each language says of the first
character of a word.

- `vocabulary`: the words of each kind.
- `cons_mem_…`, `nil_mem_…`: the first character, and whether there need be one.
-/

namespace GuardedQuery

open Language Computability

/-! ## Languages of characters -/

def oneOf (test : Char → Bool) : Language Char := {word | ∃ c, test c ∧ word = [c]}

def char (c : Char) : Language Char := oneOf (· = c)

def maybe (words : Language Char) : Language Char := 1 + words

section membership

variable {test : Char → Bool} {words others : Language Char} {c d : Char} {word : List Char}

@[simp] theorem nil_mem_oneOf : [] ∉ oneOf test := by
  rintro ⟨c, -, h⟩
  cases h

@[simp] theorem cons_mem_oneOf : c :: word ∈ oneOf test ↔ test c ∧ word = [] := by
  constructor
  · rintro ⟨d, htest, h⟩
    cases h
    exact ⟨htest, rfl⟩
  · rintro ⟨htest, rfl⟩
    exact ⟨c, htest, rfl⟩

@[simp] theorem nil_mem_oneOf_mul : [] ∉ oneOf test * words := by
  rw [mem_mul]
  rintro ⟨front, hfront, back, -, h⟩
  obtain ⟨rfl, -⟩ := List.append_eq_nil_iff.1 h
  exact nil_mem_oneOf hfront

@[simp] theorem cons_mem_oneOf_mul : c :: word ∈ oneOf test * words ↔ test c ∧ word ∈ words := by
  rw [mem_mul]
  constructor
  · rintro ⟨front, ⟨d, htest, rfl⟩, back, hback, h⟩
    cases h
    exact ⟨htest, hback⟩
  · rintro ⟨htest, hword⟩
    exact ⟨[c], ⟨c, htest, rfl⟩, word, hword, rfl⟩

@[simp] theorem nil_mem_char : [] ∉ char d := nil_mem_oneOf

@[simp] theorem cons_mem_char : c :: word ∈ char d ↔ c = d ∧ word = [] := by simp [char]

@[simp] theorem nil_mem_char_mul : [] ∉ char d * words := nil_mem_oneOf_mul

@[simp] theorem cons_mem_char_mul : c :: word ∈ char d * words ↔ c = d ∧ word ∈ words := by
  simp [char]

@[simp] theorem mem_maybe : word ∈ maybe words ↔ word = [] ∨ word ∈ words := by
  rw [maybe, mem_add, mem_one]

@[simp] theorem maybe_mul : maybe words * others = others + words * others := by
  rw [maybe, add_mul, one_mul]

/-- Words of a repetition, with others behind it: another round, or none. -/
theorem mem_kstar_mul : word ∈ words∗ * others ↔ word ∈ words * (words∗ * others) ∨
    word ∈ others := by
  conv_lhs => rw [← one_add_self_mul_kstar_eq_kstar, add_mul, one_mul, mul_assoc]
  rw [mem_add, or_comm]

@[simp] theorem nil_mem_kstar_oneOf_mul : [] ∈ (oneOf test)∗ * words ↔ [] ∈ words := by
  simp [mem_kstar_mul]

@[simp] theorem cons_mem_kstar_oneOf_mul :
    c :: word ∈ (oneOf test)∗ * words ↔
      test c ∧ word ∈ (oneOf test)∗ * words ∨ c :: word ∈ words := by
  rw [mem_kstar_mul, cons_mem_oneOf_mul]

@[simp] theorem cons_mem_kstar_oneOf :
    c :: word ∈ (oneOf test)∗ ↔ test c ∧ word ∈ (oneOf test)∗ := by
  have h : c :: word ∈ (oneOf test)∗ * 1 ↔ _ := cons_mem_kstar_oneOf_mul
  simpa [mem_one] using h

end membership

/-! ## The vocabulary -/

def tripleQuote : List Char := ['"', '"', '"']

/-- The rest of a block string behind its opening quotes: it ends with the first triple
quote that is met when every escaped one is skipped. -/
inductive BlockTail : List Char → Prop where
  | close : BlockTail tripleQuote
  | escaped {tail : List Char} (h : BlockTail tail) : BlockTail ('\\' :: tripleQuote ++ tail)
  | other {c : Char} {tail : List Char} (hclose : ¬ tripleQuote <+: c :: tail)
      (hescaped : ¬ '\\' :: tripleQuote <+: c :: tail) (h : BlockTail tail) :
      BlockTail (c :: tail)

abbrev digit : Language Char := oneOf isDigit

/-- `0 | [1-9][0-9]*` -/
def magnitude : Language Char :=
  char '0' + oneOf (fun c => isDigit c && c != '0') * digit∗

/-- `[+-]?[0-9]+` -/
def signedDigits : Language Char :=
  maybe (oneOf fun c => c = '+' ∨ c = '-') * (digit * digit∗)

/-- `[eE][+-]?[0-9]+` -/
def exponentPart : Language Char := oneOf (fun c => c = 'e' ∨ c = 'E') * signedDigits

def floatTail : Language Char := char '.' * (digit * (digit∗ * maybe exponentPart)) + exponentPart

/-- `u[0-9A-Fa-f]{4}` -/
def codePointEscape : Language Char := char 'u' * (oneOf isHexDigit) ^ 4

def escapeTail : Language Char := oneOf isEscapable + codePointEscape

def stringChar : Language Char :=
  oneOf (fun c => c != '"' && c != '\\' && !isLineEnd c) + char '\\' * escapeTail

/-- The words of each kind.  No word is garbage. -/
def vocabulary : TokenKind → Language Char
  | .braceOpen => char '\x7b'
  | .braceClose => char '\x7d'
  | .parenOpen => char '('
  | .parenClose => char ')'
  | .bracketOpen => char '['
  | .bracketClose => char ']'
  | .colon => char ':'
  | .equals => char '='
  | .atSign => char '@'
  | .dollar => char '$'
  | .bang => char '!'
  | .spread => char '.' * (char '.' * char '.')
  | .amp => char '&'
  | .pipe => char '|'
  | .name => oneOf isNameStart * (oneOf fun c => isNameStart c || isDigit c)∗
  | .intLit => maybe (char '-') * magnitude
  | .floatLit => maybe (char '-') * (magnitude * floatTail)
  | .stringLit => char '"' * (stringChar∗ * char '"')
  | .blockStringLit => {word | ∃ tail, word = tripleQuote ++ tail ∧ BlockTail tail}
  | .whitespace => oneOf isLineBlank * (oneOf isLineBlank)∗
  | .newline => char '\n' + char '\r' * char '\n' + char '\r'
  | .comma => char ','
  | .comment => char '#' * (oneOf fun c => !isLineEnd c)∗
  | .garbage => 0

/-! ## The first character of a word -/

section characters

variable {c : Char} {word : List Char} {others : Language Char}

theorem cons_mem_magnitude_mul : c :: word ∈ magnitude * others ↔
    c = '0' ∧ word ∈ others ∨ (isDigit c ∧ c ≠ '0') ∧ word ∈ digit∗ * others := by
  simp only [magnitude, add_mul, mul_assoc, mem_add, cons_mem_char_mul, cons_mem_oneOf_mul]
  simp

theorem nil_mem_magnitude_mul : [] ∉ magnitude * others := by
  simp only [magnitude, add_mul, mul_assoc, mem_add]
  simp

theorem cons_mem_signedDigits : c :: word ∈ signedDigits ↔
    isDigit c ∧ word ∈ digit∗ ∨ (c = '+' ∨ c = '-') ∧ word ∈ digit * digit∗ := by
  simp only [signedDigits, digit, maybe_mul, mem_add, cons_mem_oneOf_mul]
  simp

theorem nil_mem_signedDigits : [] ∉ signedDigits := by
  simp only [signedDigits, digit, maybe_mul, mem_add]
  simp

theorem cons_mem_exponentPart :
    c :: word ∈ exponentPart ↔ (c = 'e' ∨ c = 'E') ∧ word ∈ signedDigits := by
  simp [exponentPart]

theorem cons_mem_floatTail : c :: word ∈ floatTail ↔
    c = '.' ∧ word ∈ digit * (digit∗ * maybe exponentPart) ∨ c :: word ∈ exponentPart := by
  simp only [floatTail, mem_add, cons_mem_char_mul]

theorem nil_mem_floatTail : [] ∉ floatTail := by
  simp only [floatTail, exponentPart, mem_add]
  simp

theorem cons_mem_escapeTail_mul : c :: word ∈ escapeTail * others ↔
    isEscapable c ∧ word ∈ others ∨ c = 'u' ∧ word ∈ (oneOf isHexDigit) ^ 4 * others := by
  simp only [escapeTail, codePointEscape, add_mul, mul_assoc, mem_add, cons_mem_oneOf_mul,
    cons_mem_char_mul]

theorem nil_mem_escapeTail_mul : [] ∉ escapeTail * others := by
  simp only [escapeTail, codePointEscape, add_mul, mul_assoc, mem_add]
  simp

theorem cons_mem_kstar_stringChar_mul : c :: word ∈ stringChar∗ * others ↔
    (c ≠ '"' ∧ c ≠ '\\' ∧ ¬ isLineEnd c) ∧ word ∈ stringChar∗ * others ∨
      c = '\\' ∧ word ∈ escapeTail * (stringChar∗ * others) ∨ c :: word ∈ others := by
  have hchar (more : Language Char) : c :: word ∈ stringChar * more ↔
      (c ≠ '"' ∧ c ≠ '\\' ∧ ¬ isLineEnd c) ∧ word ∈ more ∨
        c = '\\' ∧ word ∈ escapeTail * more := by
    simp only [stringChar, add_mul, mul_assoc, mem_add, cons_mem_oneOf_mul, cons_mem_char_mul]
    simp [and_assoc]
  rw [mem_kstar_mul, hchar, or_assoc]

theorem nil_mem_kstar_stringChar_mul : [] ∈ stringChar∗ * others ↔ [] ∈ others := by
  have hchar (more : Language Char) : [] ∉ stringChar * more := by
    simp only [stringChar, add_mul, mul_assoc, mem_add]
    simp
  rw [mem_kstar_mul, or_iff_right (hchar _)]

theorem isDigit_of_cons_mem_exponentPart (h : c :: word ∈ exponentPart) : isDigit c = false := by
  rcases (cons_mem_exponentPart.1 h).1 with rfl | rfl <;> decide

theorem isDigit_of_cons_mem_floatTail (h : c :: word ∈ floatTail) : isDigit c = false := by
  rcases cons_mem_floatTail.1 h with ⟨rfl, -⟩ | h
  · decide
  · exact isDigit_of_cons_mem_exponentPart h

end characters

theorem nil_notMem_vocabulary (kind : TokenKind) : [] ∉ vocabulary kind := by
  cases kind with
  | garbage => exact notMem_zero []
  | intLit =>
    rw [vocabulary, ← mul_one magnitude, maybe_mul, mem_add]
    simp [nil_mem_magnitude_mul, -mul_one]
  | floatLit =>
    rw [vocabulary, maybe_mul, mem_add]
    simp [nil_mem_magnitude_mul]
  | blockStringLit =>
    rintro ⟨tail, h, -⟩
    cases h
  | newline =>
    rintro ((h | h) | h)
    · exact nil_mem_char h
    · exact nil_mem_char_mul h
    · exact nil_mem_char h
  | _ => simp [vocabulary]

end GuardedQuery
