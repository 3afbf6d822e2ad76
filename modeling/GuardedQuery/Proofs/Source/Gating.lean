import GuardedQuery.Proofs.Source.Cursor

/-! # Accounting at a gate

A gate counts the characters that it lets through.  Whatever the sizes of the reads, these
are the beginning of what its reader had left, never more than the ceiling, and a read is
refused only at the ceiling with more to come.

- `Gate.step`: a read and the gate that it leaves, a refused read included.
- `Gate.Holds`: the count of a gate, put against what it let through.
- `Gate.Holds.step`, `Gate.Holds.after`: one read, and reads of any sizes.
- `Feed.exists_drainInto_eq_after`: draining a gate is a run of reads.
- `GatedCursor.Mirrors`: a gate around a cursor beside a gate around a reader.
- `Source.gate_accounts`: a gate anywhere in a source.
-/

namespace GuardedQuery

namespace Gate

/-! ## Runs of reads -/

/-- A read and the gate that it leaves.  A refused read leaves the gate as it is. -/
def step (gate : Gate) (n : Nat) : Except ReadFault (List Char) × Gate :=
  match gate.read n with
  | .ok (chars, next) => (.ok chars, next)
  | .error fault => (.error fault, gate)

def after (gate : Gate) : List Nat → Gate
  | [] => gate
  | n :: sizes => (gate.step n).2.after sizes

def passed (gate : Gate) : List Nat → List Char
  | [] => []
  | n :: sizes => (gate.step n).1.toOption.getD [] ++ (gate.step n).2.passed sizes

def Blocked (gate : Gate) : Prop :=
  gate.consumed = gate.ceiling.toNat ∧ gate.reader.remaining ≠ []

structure Holds (gate : Gate) (text passed : List Char) : Prop where
  bounded : gate.consumed ≤ gate.ceiling.toNat
  counted : gate.consumed = passed.length
  split : passed ++ gate.reader.remaining = text

variable {gate : Gate} {text passed : List Char}

theorem holds_fresh (reader : Reader) (ceiling : UInt32) :
    Holds { reader, ceiling } reader.remaining [] :=
  ⟨Nat.zero_le _, rfl, rfl⟩

theorem step_of_blocked (h : gate.Blocked) (n : Nat) :
    gate.step n = (.error (.tooManyCharacters gate.ceiling), gate) := by
  obtain ⟨hceiling, hmore⟩ := h
  have hopen : ¬ gate.consumed < gate.ceiling.toNat := by omega
  have hend : ¬ gate.reader.isExhausted := fun hend => hmore ((Reader.isExhausted_iff _).1 hend)
  rw [step, read, if_neg hopen, if_neg hend]

/-- A read that is not refused gives what was asked for, as far as the ceiling and the
reader allow. -/
theorem step_of_not_blocked (hbound : gate.consumed ≤ gate.ceiling.toNat)
    (h : ¬ gate.Blocked) (n : Nat) :
    ∃ chars next, gate.step n = (.ok chars, next) ∧ next.ceiling = gate.ceiling ∧
      next.consumed = gate.consumed + chars.length ∧
      chars ++ next.reader.remaining = gate.reader.remaining ∧
      chars.length =
        min n (min (gate.ceiling.toNat - gate.consumed) gate.reader.remaining.length) := by
  by_cases hopen : gate.consumed < gate.ceiling.toNat
  · have hread := gate.reader.read_append (min n (gate.ceiling.toNat - gate.consumed))
    have hlength := congrArg List.length
      (gate.reader.read_fst (min n (gate.ceiling.toNat - gate.consumed)))
    rw [List.length_take, Nat.min_assoc] at hlength
    rw [step, read, if_pos hopen]
    exact ⟨_, _, rfl, rfl, rfl, hread, hlength⟩
  · -- At the ceiling only the end of the reader lets a read through.
    have hnil : gate.reader.remaining = [] :=
      Classical.byContradiction fun hmore => h ⟨by omega, hmore⟩
    rw [step, read, if_neg hopen, if_pos ((Reader.isExhausted_iff _).2 hnil)]
    refine ⟨[], gate, rfl, rfl, rfl, rfl, ?_⟩
    simp [hnil]

/-- Only a blocked gate refuses a read. -/
theorem step_refuses_iff (hbound : gate.consumed ≤ gate.ceiling.toNat) (n : Nat) :
    (∃ fault, (gate.step n).1 = .error fault) ↔ gate.Blocked := by
  constructor
  · rintro ⟨fault, hfault⟩
    refine Classical.byContradiction fun hblocked => ?_
    obtain ⟨chars, next, hstep, -⟩ := step_of_not_blocked hbound hblocked n
    rw [hstep] at hfault
    cases hfault
  · intro hblocked
    rw [step_of_blocked hblocked]
    exact ⟨_, rfl⟩

/-- One read. -/
theorem Holds.step (h : gate.Holds text passed) (n : Nat) :
    (gate.step n).2.Holds text (passed ++ (gate.step n).1.toOption.getD []) ∧
      (gate.step n).2.ceiling = gate.ceiling := by
  by_cases hblocked : gate.Blocked
  · rw [step_of_blocked hblocked]
    refine ⟨?_, rfl⟩
    simpa [Except.toOption] using h
  · obtain ⟨chars, next, hstep, hceiling, hconsumed, hsplit, hlength⟩ :=
      step_of_not_blocked h.bounded hblocked n
    rw [hstep]
    refine ⟨⟨?_, ?_, ?_⟩, hceiling⟩
    · have hroom := h.bounded
      rw [hceiling, hconsumed, hlength]
      omega
    · rw [hconsumed, h.counted]
      simp [Except.toOption]
    · rw [← h.split, ← hsplit]
      simp [Except.toOption]

/-- Reads of any sizes. -/
theorem Holds.after (h : gate.Holds text passed) (sizes : List Nat) :
    (gate.after sizes).Holds text (passed ++ gate.passed sizes) ∧
      (gate.after sizes).ceiling = gate.ceiling := by
  induction sizes generalizing gate passed with
  | nil =>
    rw [Gate.after, Gate.passed, List.append_nil]
    exact ⟨h, rfl⟩
  | cons n sizes ih =>
    obtain ⟨hstep, hceiling⟩ := h.step n
    obtain ⟨hafter, hsame⟩ := ih hstep
    rw [Gate.after, Gate.passed, ← List.append_assoc]
    exact ⟨hafter, hsame.trans hceiling⟩

end Gate

/-! ## Draining -/

namespace Feed

variable {text : String} {feed : Feed}

/-- Draining a gate is a run of reads. -/
theorem exists_drainInto_eq_after (text : String) (gate : Gate) :
    ∃ sizes, (drainInto text (.gated gate)).2 = .gated (gate.after sizes) := by
  generalize hfeed : Feed.gated gate = feed
  -- A read through a gate leaves a gate, so the induction is on a feed that is one.
  have hread {gate : Gate} {chars : List Char} {next : Feed}
      (h : (gated gate).read chunkSize = .ok (chars, next)) :
      next = .gated (gate.step chunkSize).2 := by
    simp only [Feed.read] at h
    cases hgate : gate.read chunkSize with
    | error fault =>
      rw [hgate] at h
      cases h
    | ok result =>
      rw [hgate] at h
      cases h
      rw [Gate.step, hgate]
  fun_induction drainInto text feed generalizing gate with
  | case1 text feed fault h => exact ⟨[], hfeed.symm⟩
  | case2 text feed next h =>
    subst hfeed
    exact ⟨[chunkSize], hread h⟩
  | case3 text feed c chars next h _ ih =>
    subst hfeed
    obtain ⟨sizes, hsizes⟩ := ih _ (hread h).symm
    exact ⟨chunkSize :: sizes, hsizes⟩

/-- A drain that fails stops at a read that is refused. -/
theorem read_of_drainInto_eq_error {fault : ReadFault}
    (h : (drainInto text feed).1 = .error fault) :
    (drainInto text feed).2.read chunkSize = .error fault := by
  fun_induction drainInto text feed with
  | case1 text feed other hread =>
    cases h
    exact hread
  | case2 text feed next hread => cases h
  | case3 text feed c chars next hread _ ih => exact ih h

end Feed

/-! ## Readers behind gates -/

namespace Reader

/-- The reader taken out of one gate after the other, each with its ceiling and the sizes
of the reads through it. -/
def through (reader : Reader) : List (UInt32 × List Nat) → Reader
  | [] => reader
  | (ceiling, sizes) :: gates =>
    (({ reader, ceiling } : Gate).after sizes).reader.through gates

def passedThrough (reader : Reader) : List (UInt32 × List Nat) → List Char
  | [] => []
  | (ceiling, sizes) :: gates =>
    ({ reader, ceiling } : Gate).passed sizes ++
      (({ reader, ceiling } : Gate).after sizes).reader.passedThrough gates

/-- Nothing is lost between one gate and the next. -/
theorem passedThrough_append (reader : Reader) (gates : List (UInt32 × List Nat)) :
    reader.passedThrough gates ++ (reader.through gates).remaining = reader.remaining := by
  induction gates generalizing reader with
  | nil => rfl
  | cons gate gates ih =>
    obtain ⟨ceiling, sizes⟩ := gate
    have hsplit := ((Gate.holds_fresh reader ceiling).after sizes).1.split
    rw [List.nil_append] at hsplit
    rw [passedThrough, through, List.append_assoc, ih, hsplit]

end Reader

/-! ## Cursors behind gates -/

structure GatedCursor where
  cursor : Cursor
  ceiling : UInt32
  consumed : Nat := 0

namespace GatedCursor

/-- Reads at most `n` characters, puts them behind `text` and says how many they are.  A read
that is refused leaves everything as it is. -/
def read (source : Source) (gate : GatedCursor) (text : List Char) (n : Nat) :
    Option (Except ReadFault Nat × List Char × GatedCursor) :=
  if gate.consumed < gate.ceiling.toNat then do
    let (count, text, cursor) ←
      gate.cursor.read source text (min n (gate.ceiling.toNat - gate.consumed))
    return (.ok count, text, { gate with cursor, consumed := gate.consumed + count })
  else if gate.cursor.isExhausted source then return (.ok 0, text, gate)
  else return (.error (.tooManyCharacters gate.ceiling), text, gate)

def readAll (source : Source) (gate : GatedCursor) (text : List Char) :
    List Nat → Option (List Char × GatedCursor)
  | [] => some (text, gate)
  | n :: sizes => do
    let (_, text, gate) ← gate.read source text n
    gate.readAll source text sizes

structure Mirrors (source : Source) (gate : GatedCursor) (other : Gate) : Prop where
  stands : Cursor.StandsAt source gate.cursor other.reader.remaining
  ceiling : gate.ceiling = other.ceiling
  consumed : gate.consumed = other.consumed

variable {source : Source} {gate : GatedCursor} {other : Gate}

theorem Mirrors.read (h : gate.Mirrors source other) (text : List Char) (n : Nat) :
    ∃ next, gate.read source text n =
        some ((other.step n).1.map (·.length), text ++ (other.step n).1.toOption.getD [], next) ∧
      next.Mirrors source (other.step n).2 := by
  obtain ⟨hstands, hceiling, hconsumed⟩ := h
  rw [GatedCursor.read, hceiling, hconsumed, Gate.step, Gate.read]
  by_cases hopen : other.consumed < other.ceiling.toNat
  · obtain ⟨cursor, hread, hcursor⟩ :=
      hstands.read text (min n (other.ceiling.toNat - other.consumed))
    rw [← List.length_take, ← Reader.read_fst] at hread
    rw [← Reader.remaining_read] at hcursor
    rw [if_pos hopen, if_pos hopen, hread]
    exact ⟨_, rfl, hcursor, rfl, rfl⟩
  · rw [if_neg hopen, if_neg hopen]
    by_cases hend : other.reader.isExhausted
    · have hmirror : gate.cursor.isExhausted source :=
        hstands.isExhausted_iff.2 ((Reader.isExhausted_iff _).1 hend)
      rw [if_pos hmirror, if_pos hend]
      exact ⟨gate, by simp [Except.map, Except.toOption], hstands, hceiling, hconsumed⟩
    · have hmirror : ¬ gate.cursor.isExhausted source := fun hmirror =>
        hend ((Reader.isExhausted_iff _).2 (hstands.isExhausted_iff.1 hmirror))
      rw [if_neg hmirror, if_neg hend]
      exact ⟨gate, by simp [Except.map, Except.toOption], hstands, hceiling, hconsumed⟩

theorem Mirrors.readAll (h : gate.Mirrors source other) (text : List Char) (sizes : List Nat) :
    ∃ next, gate.readAll source text sizes = some (text ++ other.passed sizes, next) ∧
      next.Mirrors source (other.after sizes) := by
  induction sizes generalizing gate other text with
  | nil => exact ⟨gate, by simp [GatedCursor.readAll, Gate.passed], h⟩
  | cons n sizes ih =>
    obtain ⟨between, hread, hbetween⟩ := h.read text n
    obtain ⟨next, hrest, hnext⟩ := ih hbetween (text ++ (other.step n).1.toOption.getD [])
    refine ⟨next, ?_, hnext⟩
    rw [GatedCursor.readAll, hread]
    simp [hrest, Gate.passed]

end GatedCursor

namespace Cursor

/-- The cursor taken out of one gate after the other, with what they let through behind
`text`. -/
def through (source : Source) (cursor : Cursor) (text : List Char) :
    List (UInt32 × List Nat) → Option (List Char × Cursor)
  | [] => some (text, cursor)
  | (ceiling, sizes) :: gates => do
    let (text, gate) ← GatedCursor.readAll source { cursor, ceiling } text sizes
    gate.cursor.through source text gates

theorem StandsAt.through {source : Source} {cursor : Cursor} {reader : Reader}
    (h : StandsAt source cursor reader.remaining) (text : List Char)
    (gates : List (UInt32 × List Nat)) :
    ∃ next, cursor.through source text gates = some (text ++ reader.passedThrough gates, next) ∧
      StandsAt source next (reader.through gates).remaining := by
  induction gates generalizing cursor reader text with
  | nil => exact ⟨cursor, by simp [Cursor.through, Reader.passedThrough], h⟩
  | cons gate gates ih =>
    obtain ⟨ceiling, sizes⟩ := gate
    have hmirrors : GatedCursor.Mirrors source { cursor, ceiling } { reader, ceiling } :=
      ⟨h, rfl, rfl⟩
    obtain ⟨between, hread, hbetween⟩ := hmirrors.readAll text sizes
    obtain ⟨next, hrest, hnext⟩ := ih hbetween.stands (text ++ ({ reader, ceiling } : Gate).passed sizes)
    refine ⟨next, ?_, hnext⟩
    rw [Cursor.through, hread]
    simp [hrest, Reader.passedThrough]

end Cursor

/-- What is known of a gate behind reads of any sizes: `text` was left to read when it was
put around its reader. -/
structure Gate.Accounts (fresh : Gate) (text : List Char) (sizes : List Nat) : Prop where
  bounded : (fresh.after sizes).consumed ≤ fresh.ceiling.toNat
  counted : (fresh.after sizes).consumed = (fresh.passed sizes).length
  passed_eq : fresh.passed sizes = text.take (fresh.after sizes).consumed
  remaining_eq : (fresh.after sizes).reader.remaining = text.drop (fresh.after sizes).consumed
  refuses_iff (n : Nat) :
    (∃ fault, ((fresh.after sizes).step n).1 = .error fault) ↔
      (fresh.after sizes).consumed = fresh.ceiling.toNat ∧
        (fresh.after sizes).reader.remaining ≠ []
  refused (n : Nat) (fault : ReadFault) (h : ((fresh.after sizes).step n).1 = .error fault) :
    fault = .tooManyCharacters fresh.ceiling ∧ ((fresh.after sizes).step n).2 = fresh.after sizes
  delivers (n : Nat) (chars : List Char) (h : ((fresh.after sizes).step n).1 = .ok chars) :
    chars.length = min n (min (fresh.ceiling.toNat - (fresh.after sizes).consumed)
      (fresh.after sizes).reader.remaining.length)

theorem Gate.accounts_fresh (reader : Reader) (ceiling : UInt32) (sizes : List Nat) :
    Accounts { reader, ceiling } reader.remaining sizes := by
  obtain ⟨hholds, hceiling⟩ := (holds_fresh reader ceiling).after sizes
  rw [List.nil_append] at hholds
  have hbounded := hholds.bounded
  have hrefuses := step_refuses_iff hbounded
  refine ⟨?_, hholds.counted, ?_, ?_, ?_, ?_, ?_⟩
  · rwa [hceiling] at hbounded
  · rw [hholds.counted, ← hholds.split, List.take_left]
  · rw [hholds.counted, ← hholds.split, List.drop_left]
  · intro n
    rw [hrefuses, Blocked, hceiling]
  · intro n fault hfault
    have hblocked := (hrefuses n).1 ⟨fault, hfault⟩
    rw [step_of_blocked hblocked, hceiling] at hfault
    rw [step_of_blocked hblocked]
    cases hfault
    exact ⟨rfl, rfl⟩
  · intro n chars hchars
    have hopen : ¬ (({ reader, ceiling } : Gate).after sizes).Blocked := by
      intro hblocked
      rw [step_of_blocked hblocked] at hchars
      cases hchars
    obtain ⟨chars', next, hstep, -, -, -, hlength⟩ := step_of_not_blocked hbounded hopen n
    rw [hstep] at hchars
    cases hchars
    rw [hlength, hceiling]

namespace Feed

variable {reader : Reader} {ceiling : UInt32}

/-- A fresh gate lets everything through if it is not more than the ceiling. -/
theorem drain_gated (reader : Reader) (ceiling : UInt32) :
    (gated { reader, ceiling }).drain.1 =
      if ceiling.toNat < reader.remaining.length then .error (.tooManyCharacters ceiling)
      else .ok (String.ofList reader.remaining) := by
  rw [drain, drainInto_fst _ _ (Nat.zero_le _), overflow?, Nat.zero_add]
  by_cases hover : ceiling.toNat < reader.remaining.length
  · rw [if_pos hover, if_pos hover]
  · rw [if_neg hover, if_neg hover]
    exact congrArg Except.ok String.empty_append

/-- A drain that fails has let through exactly as many characters as the ceiling allows. -/
theorem drain_gated_of_error {fault : ReadFault}
    (h : (gated { reader, ceiling }).drain.1 = .error fault) :
    (gated { reader, ceiling }).drain.2.consumed? = some ceiling.toNat ∧
      (gated { reader, ceiling }).drain.2.reader.remaining =
        reader.remaining.drop ceiling.toNat := by
  obtain ⟨sizes, hsizes⟩ := exists_drainInto_eq_after "" { reader, ceiling }
  have hread := read_of_drainInto_eq_error h
  rw [hsizes] at hread
  have hrefused : ∃ fault,
      ((({ reader, ceiling } : Gate).after sizes).step chunkSize).1 = .error fault := by
    simp only [Feed.read] at hread
    cases hgate : (({ reader, ceiling } : Gate).after sizes).read chunkSize with
    | error other => exact ⟨other, by rw [Gate.step, hgate]⟩
    | ok result =>
      rw [hgate] at hread
      cases hread
  have haccounts := Gate.accounts_fresh reader ceiling sizes
  obtain ⟨hconsumed, -⟩ := (haccounts.refuses_iff chunkSize).1 hrefused
  have hremaining := haccounts.remaining_eq
  rw [hconsumed] at hremaining
  rw [drain, hsizes]
  exact ⟨congrArg some hconsumed, hremaining⟩

end Feed

/-- A gate around a reader anywhere in a source, taken out of any gates before: it accounts
for reads of any sizes, and draining it gives all that is left exactly if that is not more
than the ceiling.  A gate around a cursor that went through the same gates reads alike, never
inside a character. -/
theorem Source.gate_accounts (source : Source) (earlier : List (UInt32 × List Nat))
    (ceiling : UInt32) :
    let reader := source.reader.through earlier
    let drained := (Feed.gated { reader, ceiling }).drain
    source.reader.passedThrough earlier ++ reader.remaining = source.text.toList ∧
    (∀ sizes, Gate.Accounts { reader, ceiling } reader.remaining sizes) ∧
    ((∃ text, drained.1 = .ok text) ↔ reader.remaining.length ≤ ceiling.toNat) ∧
    (∀ text, drained.1 = .ok text → text.toList = reader.remaining) ∧
    (∀ fault, drained.1 = .error fault →
      fault = .tooManyCharacters ceiling ∧ drained.2.consumed? = some ceiling.toNat ∧
        drained.2.reader.remaining = reader.remaining.drop ceiling.toNat) ∧
    ∃ cursor,
      Cursor.through source {} [] earlier = some (source.reader.passedThrough earlier, cursor) ∧
      ∀ sizes,
        let other := ({ reader, ceiling } : Gate).after sizes
        ∃ gate, GatedCursor.readAll source { cursor, ceiling } [] sizes =
            some (({ reader, ceiling } : Gate).passed sizes, gate) ∧
          gate.consumed = other.consumed ∧
          ∀ before n, ∃ next, next.consumed = (other.step n).2.consumed ∧
            gate.read source before n =
              some ((other.step n).1.map (·.length),
                before ++ (other.step n).1.toOption.getD [], next) := by
  intro reader drained
  have hdrained : drained.1 = _ := Feed.drain_gated reader ceiling
  refine ⟨?whole, Gate.accounts_fresh reader ceiling, ?succeeds, ?text, ?fails, ?places⟩
  case whole =>
    rw [source.text_toList]
    exact source.reader.passedThrough_append earlier
  case succeeds =>
    by_cases hover : ceiling.toNat < reader.remaining.length
    · rw [hdrained, if_pos hover]
      simp [hover]
    · rw [hdrained, if_neg hover]
      simp [Nat.le_of_not_lt hover]
  case text =>
    intro text htext
    rw [hdrained] at htext
    split at htext
    · cases htext
    · cases htext
      exact String.toList_ofList
  case fails =>
    intro fault hfault
    refine ⟨?_, Feed.drain_gated_of_error hfault⟩
    rw [hdrained] at hfault
    split at hfault
    · cases hfault
      rfl
    · cases hfault
  case places =>
    obtain ⟨cursor, hthrough, hstands⟩ := source.standsAt_reader.through [] earlier
    refine ⟨cursor, hthrough, fun sizes => ?_⟩
    have hmirrors : GatedCursor.Mirrors source { cursor, ceiling } { reader, ceiling } :=
      ⟨hstands, rfl, rfl⟩
    obtain ⟨gate, hread, hgate⟩ := hmirrors.readAll [] sizes
    refine ⟨gate, hread, hgate.consumed, fun before n => ?_⟩
    obtain ⟨next, hnext, hmirrors⟩ := hgate.read before n
    exact ⟨next, hmirrors.consumed, hnext⟩

end GuardedQuery
