import GuardedQuery.Proofs.Token.Vocabulary

/-! # The automaton reads the vocabulary

Every state of the automaton waits for some words.  A step takes the first character off
each of them, so what leads from the start to a token is the vocabulary, and the automaton
gets as far as some word goes.

- `Scan.Awaits`: the words that lead from a state to a token.
- `Scan.awaits_iff`: reading such a word ends in a state that accepts.
- `Scan.isSome_read_iff`: reading gets through what can become such a word.
-/

namespace GuardedQuery

open Language Computability

/-! ## States and the words that they wait for -/

namespace Scan

def Awaits : Scan → TokenKind → List Char → Prop
  | start, kind, word => kind ≠ .blockStringLit ∧ word ∈ vocabulary kind
  | complete k, kind, word => kind = k ∧ word = []
  | dot, kind, word => kind = .spread ∧ word ∈ char '.' * char '.'
  | dots, kind, word => kind = .spread ∧ word ∈ char '.'
  | name, kind, word => kind = .name ∧ word ∈ (oneOf fun c => isNameStart c || isDigit c)∗
  | minus, kind, word =>
    kind = .intLit ∧ word ∈ magnitude * 1 ∨ kind = .floatLit ∧ word ∈ magnitude * floatTail
  | zero, kind, word => kind = .intLit ∧ word = [] ∨ kind = .floatLit ∧ word ∈ floatTail
  | digits, kind, word =>
    kind = .intLit ∧ word ∈ digit∗ ∨ kind = .floatLit ∧ word ∈ digit∗ * floatTail
  | point, kind, word => kind = .floatLit ∧ word ∈ digit * (digit∗ * maybe exponentPart)
  | fraction, kind, word => kind = .floatLit ∧ word ∈ digit∗ * maybe exponentPart
  | exponent, kind, word => kind = .floatLit ∧ word ∈ signedDigits
  | exponentSign, kind, word => kind = .floatLit ∧ word ∈ digit * digit∗
  | exponentDigits, kind, word => kind = .floatLit ∧ word ∈ digit∗
  | string, kind, word => kind = .stringLit ∧ word ∈ stringChar∗ * char '"'
  | escape, kind, word => kind = .stringLit ∧ word ∈ escapeTail * (stringChar∗ * char '"')
  | codePoint more, kind, word =>
    kind = .stringLit ∧ word ∈ (oneOf isHexDigit) ^ (more + 1) * (stringChar∗ * char '"')
  | blank, kind, word => kind = .whitespace ∧ word ∈ (oneOf isLineBlank)∗
  | carriageReturn, kind, word => kind = .newline ∧ word ∈ maybe (char '\n')
  | comment, kind, word => kind = .comment ∧ word ∈ (oneOf fun c => !isLineEnd c)∗

variable {state : Scan} {kind : TokenKind} {c : Char} {word : List Char}

theorem awaits_nil (hstart : state ≠ start) :
    state.Awaits kind [] ↔ state.accepts = some kind := by
  cases state with
  | start => exact (hstart rfl).elim
  | codePoint more => simp [Awaits, accepts, pow_succ', mul_assoc]
  | zero | digits =>
    simp [Awaits, accepts, eq_comm, nil_mem_kstar, nil_mem_floatTail]
  | _ =>
    simp [Awaits, accepts, eq_comm, nil_mem_kstar, nil_mem_magnitude_mul, nil_mem_signedDigits,
      nil_mem_escapeTail_mul, nil_mem_kstar_stringChar_mul, -mul_one]

theorem afterInteger_awaits : (∃ next, afterInteger c = some next ∧ next.Awaits kind word) ↔
    kind = .floatLit ∧ c :: word ∈ floatTail := by
  rw [cons_mem_floatTail, cons_mem_exponentPart, afterInteger]
  by_cases hdot : c = '.'
  · simp [hdot, Awaits]
  · by_cases he : c = 'e' ∨ c = 'E' <;> simp [hdot, he, Awaits]

theorem awaits_cons (hstart : state ≠ start) : state.Awaits kind (c :: word) ↔
    ∃ next, state.step c = some next ∧ next.Awaits kind word := by
  cases state with
  | start => exact (hstart rfl).elim
  | complete k => simp [Awaits, step]
  | dot | dots | name | blank | exponentDigits | exponentSign | point | carriageReturn =>
    simp [Awaits, step, and_left_comm]
  | minus =>
    simp only [Awaits, cons_mem_magnitude_mul, step]
    by_cases hzero : c = '0'
    · simp [hzero, isDigit]
    · by_cases hdigit : isDigit c <;> simp [hzero, hdigit]
  | zero =>
    simp only [step, afterInteger_awaits]
    simp [Awaits]
  | digits =>
    simp only [step]
    by_cases hdigit : isDigit c
    · -- Nothing that makes a float of an integer starts with a digit.
      have hfloat : c :: word ∉ floatTail := fun h => by
        simp [isDigit_of_cons_mem_floatTail h] at hdigit
      simp [Awaits, hdigit, hfloat]
    · simp only [if_neg hdigit, afterInteger_awaits]
      simp [Awaits, hdigit]
  | fraction =>
    simp only [Awaits, step, cons_mem_kstar_oneOf_mul, mem_maybe]
    by_cases hdigit : isDigit c
    · have hexponent : c :: word ∉ exponentPart := fun h => by
        simp [isDigit_of_cons_mem_exponentPart h] at hdigit
      simp [hdigit, hexponent]
    · simp [hdigit, cons_mem_exponentPart, and_left_comm]
  | exponent =>
    simp only [Awaits, step, cons_mem_signedDigits]
    by_cases hdigit : isDigit c
    · have hsign : ¬ (c = '+' ∨ c = '-') := by
        rintro (rfl | rfl) <;> cases hdigit
      simp [hdigit, hsign]
    · simp [hdigit, and_left_comm]
  | string =>
    simp only [Awaits, step, cons_mem_kstar_stringChar_mul]
    by_cases hquote : c = '"'
    · simp [hquote]
    · by_cases hescape : c = '\\'
      · simp [hescape]
      · simp [hquote, hescape, and_left_comm]
  | escape =>
    simp only [Awaits, step, cons_mem_escapeTail_mul]
    by_cases hescapable : isEscapable c
    · have hu : c ≠ 'u' := by rintro rfl; cases hescapable
      simp [hescapable, hu]
    · simp [hescapable, and_left_comm]
  | codePoint more =>
    cases more with
    | zero => simp [Awaits, step, and_left_comm]
    | succ more =>
      simp only [Awaits, step]
      rw [pow_succ', mul_assoc, cons_mem_oneOf_mul]
      simp [and_left_comm]
  | comment => by_cases hend : isLineEnd c <;> simp [Awaits, step, hend]

/-! ## The first character -/

theorem punctuator?_eq_none_of_isNameStart (h : isNameStart c) : punctuator? c = none := by
  unfold punctuator?
  split
  case h_16 => rfl
  all_goals cases h

theorem punctuator?_eq_none_of_isDigit (h : isDigit c) : punctuator? c = none := by
  unfold punctuator?
  split
  case h_16 => rfl
  all_goals cases h

theorem isNameStart_of_isDigit (h : isDigit c) : isNameStart c = false := by
  have hle : c.val ≤ '9'.val := by
    simp only [isDigit, Bool.and_eq_true, decide_eq_true_eq] at h
    exact h.2
  have hnot (d : Char) (hd : '9'.val < d.val) : ¬ d ≤ c := fun hdc =>
    absurd (UInt32.lt_of_lt_of_le hd (UInt32.le_trans hdc hle)) (UInt32.lt_irrefl _)
  have hunderscore : c ≠ '_' := by
    rintro rfl
    cases h
  simp [isNameStart, hunderscore, hnot 'A' (by decide), hnot 'a' (by decide)]

theorem first_of_isNameStart (h : isNameStart c) : first c = some name := by
  simp [first, punctuator?_eq_none_of_isNameStart h, h]

theorem first_of_isDigit (h : isDigit c) (hzero : c ≠ '0') : first c = some digits := by
  simp [first, punctuator?_eq_none_of_isDigit h, isNameStart_of_isDigit h, h, hzero]

theorem first_of_isLineBlank (h : isLineBlank c) : first c = some blank := by
  simp only [isLineBlank, Bool.or_eq_true, beq_iff_eq] at h
  rcases h with (rfl | rfl) | rfl <;> rfl

theorem mem_vocabulary_of_punctuator? (h : punctuator? c = some kind) :
    kind ≠ .blockStringLit ∧ [c] ∈ vocabulary kind := by
  unfold punctuator? at h
  split at h
  case h_15 =>
    cases h
    exact ⟨by decide, .inl (.inl (cons_mem_char.2 ⟨rfl, rfl⟩))⟩
  case h_16 => cases h
  all_goals
    cases h
    exact ⟨by decide, cons_mem_char.2 ⟨rfl, rfl⟩⟩

theorem cons_mem_number {others : Language Char} :
    c :: word ∈ maybe (char '-') * (magnitude * others) ↔
      c = '-' ∧ word ∈ magnitude * others ∨ c = '0' ∧ word ∈ others ∨
        (isDigit c ∧ c ≠ '0') ∧ word ∈ digit∗ * others := by
  rw [maybe_mul, mem_add, cons_mem_magnitude_mul, cons_mem_char_mul, or_comm]

/-- The first character of a word leads to a state that waits for the others. -/
theorem exists_first_of_mem_vocabulary (hblock : kind ≠ .blockStringLit)
    (hword : c :: word ∈ vocabulary kind) :
    ∃ next, first c = some next ∧ next.Awaits kind word := by
  cases kind with
  | blockStringLit => exact (hblock rfl).elim
  | garbage => cases hword
  | name =>
    obtain ⟨hstart, hrest⟩ := cons_mem_oneOf_mul.1 hword
    exact ⟨name, first_of_isNameStart hstart, rfl, hrest⟩
  | spread =>
    obtain ⟨rfl, hrest⟩ := cons_mem_char_mul.1 hword
    exact ⟨dot, rfl, rfl, hrest⟩
  | comment =>
    obtain ⟨rfl, hrest⟩ := cons_mem_char_mul.1 hword
    exact ⟨comment, rfl, rfl, hrest⟩
  | stringLit =>
    obtain ⟨rfl, hrest⟩ := cons_mem_char_mul.1 hword
    exact ⟨string, rfl, rfl, hrest⟩
  | whitespace =>
    obtain ⟨hblank, hrest⟩ := cons_mem_oneOf_mul.1 hword
    exact ⟨blank, first_of_isLineBlank hblank, rfl, hrest⟩
  | newline =>
    rcases hword with (hword | hword) | hword
    · obtain ⟨rfl, rfl⟩ := cons_mem_char.1 hword
      exact ⟨_, rfl, rfl, rfl⟩
    · obtain ⟨rfl, hrest⟩ := cons_mem_char_mul.1 hword
      exact ⟨carriageReturn, rfl, rfl, mem_maybe.2 (.inr hrest)⟩
    · obtain ⟨rfl, rfl⟩ := cons_mem_char.1 hword
      exact ⟨carriageReturn, rfl, rfl, mem_maybe.2 (.inl rfl)⟩
  | intLit =>
    rw [vocabulary, ← mul_one magnitude, cons_mem_number] at hword
    rcases hword with ⟨rfl, hrest⟩ | ⟨rfl, hrest⟩ | ⟨⟨hdigit, hzero⟩, hrest⟩
    · exact ⟨minus, rfl, .inl ⟨rfl, hrest⟩⟩
    · exact ⟨zero, rfl, .inl ⟨rfl, hrest⟩⟩
    · rw [mul_one] at hrest
      exact ⟨digits, first_of_isDigit hdigit hzero, .inl ⟨rfl, hrest⟩⟩
  | floatLit =>
    rcases cons_mem_number.1 hword with ⟨rfl, hrest⟩ | ⟨rfl, hrest⟩ | ⟨⟨hdigit, hzero⟩, hrest⟩
    · exact ⟨minus, rfl, .inr ⟨rfl, hrest⟩⟩
    · exact ⟨zero, rfl, .inr ⟨rfl, hrest⟩⟩
    · exact ⟨digits, first_of_isDigit hdigit hzero, .inr ⟨rfl, hrest⟩⟩
  | _ =>
    obtain ⟨rfl, rfl⟩ := cons_mem_char.1 hword
    exact ⟨_, rfl, rfl, rfl⟩

/-- What the state behind the first character waits for makes a word with it. -/
theorem mem_vocabulary_of_first {next : Scan} (hfirst : first c = some next)
    (hword : next.Awaits kind word) : kind ≠ .blockStringLit ∧ c :: word ∈ vocabulary kind := by
  -- Integers and floats differ only in what follows the digits.
  have number {others : Language Char} (hrest : c = '-' ∧ word ∈ magnitude * others ∨
      c = '0' ∧ word ∈ others ∨ (isDigit c ∧ c ≠ '0') ∧ word ∈ digit∗ * others) :
      c :: word ∈ maybe (char '-') * (magnitude * others) := cons_mem_number.2 hrest
  cases hpunctuator : punctuator? c with
  | some k =>
    obtain rfl : complete k = next := by simpa [first, hpunctuator] using hfirst
    obtain ⟨rfl, rfl⟩ := hword
    exact mem_vocabulary_of_punctuator? hpunctuator
  | none =>
    simp only [first, hpunctuator] at hfirst
    split_ifs at hfirst with hname hzero hdigit hminus hdot hquote hhash hreturn hblank <;>
      cases hfirst
    · obtain ⟨rfl, hword⟩ := hword
      exact ⟨by decide, cons_mem_oneOf_mul.2 ⟨hname, hword⟩⟩
    · rcases hword with ⟨rfl, rfl⟩ | ⟨rfl, hword⟩
      · rw [vocabulary, ← mul_one magnitude]
        exact ⟨by decide, number (.inr (.inl ⟨hzero, rfl⟩))⟩
      · exact ⟨by decide, number (.inr (.inl ⟨hzero, hword⟩))⟩
    · rcases hword with ⟨rfl, hword⟩ | ⟨rfl, hword⟩
      · rw [vocabulary, ← mul_one magnitude]
        rw [← mul_one (digit∗)] at hword
        exact ⟨by decide, number (.inr (.inr ⟨⟨hdigit, hzero⟩, hword⟩))⟩
      · exact ⟨by decide, number (.inr (.inr ⟨⟨hdigit, hzero⟩, hword⟩))⟩
    · rcases hword with ⟨rfl, hword⟩ | ⟨rfl, hword⟩
      · rw [vocabulary, ← mul_one magnitude]
        exact ⟨by decide, number (.inl ⟨hminus, hword⟩)⟩
      · exact ⟨by decide, number (.inl ⟨hminus, hword⟩)⟩
    · obtain ⟨rfl, hword⟩ := hword
      exact ⟨by decide, cons_mem_char_mul.2 ⟨hdot, hword⟩⟩
    · obtain ⟨rfl, hword⟩ := hword
      exact ⟨by decide, cons_mem_char_mul.2 ⟨hquote, hword⟩⟩
    · obtain ⟨rfl, hword⟩ := hword
      exact ⟨by decide, cons_mem_char_mul.2 ⟨hhash, hword⟩⟩
    · obtain ⟨rfl, hword⟩ := hword
      refine ⟨by decide, ?_⟩
      rcases mem_maybe.1 hword with rfl | hword
      · exact .inr (cons_mem_char.2 ⟨hreturn, rfl⟩)
      · exact .inl (.inr (cons_mem_char_mul.2 ⟨hreturn, hword⟩))
    · obtain ⟨rfl, hword⟩ := hword
      exact ⟨by decide, cons_mem_oneOf_mul.2 ⟨hblank, hword⟩⟩

/-! ## Reading -/

def read (state : Scan) (word : List Char) : Option Scan :=
  word.foldlM step state

@[simp] theorem read_nil : state.read [] = some state := rfl

@[simp] theorem read_cons : state.read (c :: word) = (state.step c).bind (·.read word) := rfl

theorem awaits_iff_step : state.Awaits kind (c :: word) ↔
    ∃ next, state.step c = some next ∧ next.Awaits kind word := by
  by_cases hstart : state = start
  · subst hstart
    constructor
    · rintro ⟨hblock, hword⟩
      exact exists_first_of_mem_vocabulary hblock hword
    · rintro ⟨next, hfirst, hword⟩
      exact mem_vocabulary_of_first hfirst hword
  · exact awaits_cons hstart

/-- What a state waits for starts with the character, and the next state waits for the rest. -/
theorem awaits_cons_iff {next : Scan} (hstep : state.step c = some next) :
    state.Awaits kind (c :: word) ↔ next.Awaits kind word := by
  simp [awaits_iff_step, hstep]

theorem awaits_nil_iff : state.Awaits kind [] ↔ state.accepts = some kind := by
  by_cases hstart : state = start
  · subst hstart
    simp [Awaits, accepts, nil_notMem_vocabulary]
  · exact awaits_nil hstart

/-- The words that a state waits for are those that end in a token. -/
theorem awaits_iff : state.Awaits kind word ↔
    ∃ last, state.read word = some last ∧ last.accepts = some kind := by
  induction word generalizing state with
  | nil => simp [awaits_nil_iff]
  | cons c word ih =>
    simp only [awaits_iff_step, read_cons, Option.bind_eq_some_iff, ih]
    constructor
    · rintro ⟨next, hstep, last, hread, haccepts⟩
      exact ⟨last, ⟨next, hstep, hread⟩, haccepts⟩
    · rintro ⟨last, ⟨next, hstep, hread⟩, haccepts⟩
      exact ⟨next, hstep, last, hread, haccepts⟩

/-- Some word leads from every state to a token. -/
theorem exists_awaits (state : Scan) : ∃ kind word, state.Awaits kind word := by
  have reads {state : Scan} (word : List Char) {last : Scan} {kind : TokenKind}
      (hread : state.read word = some last) (haccepts : last.accepts = some kind) :
      ∃ kind word, state.Awaits kind word :=
    ⟨kind, word, awaits_iff.2 ⟨last, hread, haccepts⟩⟩
  cases state with
  | codePoint more =>
    induction more with
    | zero => exact reads ['0', '"'] rfl rfl
    | succ more ih =>
      obtain ⟨kind, word, hword⟩ := ih
      exact ⟨kind, '0' :: word, awaits_iff_step.2 ⟨codePoint more, rfl, hword⟩⟩
  | start => exact reads ['@'] rfl rfl
  | complete kind => exact reads [] rfl rfl
  | dot => exact reads ['.', '.'] rfl rfl
  | dots => exact reads ['.'] rfl rfl
  | minus | point | exponent | exponentSign => exact reads ['0'] rfl rfl
  | string => exact reads ['"'] rfl rfl
  | escape => exact reads ['n', '"'] rfl rfl
  | _ => exact reads [] rfl rfl

theorem read_append (front back : List Char) :
    state.read (front ++ back) = (state.read front).bind (·.read back) :=
  List.foldlM_append

/-- Reading gets through a text exactly if some word that is waited for starts with it. -/
theorem isSome_read_iff :
    (state.read word).isSome ↔ ∃ kind more, state.Awaits kind (word ++ more) := by
  constructor
  · intro hread
    obtain ⟨last, hlast⟩ := Option.isSome_iff_exists.1 hread
    obtain ⟨kind, more, hmore⟩ := last.exists_awaits
    obtain ⟨final, hfinal, haccepts⟩ := awaits_iff.1 hmore
    refine ⟨kind, more, awaits_iff.2 ⟨final, ?_, haccepts⟩⟩
    rw [read_append, hlast, Option.bind_some, hfinal]
  · rintro ⟨kind, more, hmore⟩
    obtain ⟨final, hfinal, -⟩ := awaits_iff.1 hmore
    rw [read_append, Option.bind_eq_some_iff] at hfinal
    obtain ⟨last, hlast, -⟩ := hfinal
    simp [hlast]

end Scan

end GuardedQuery
