import GuardedQuery.Source.Basic

/-! # Reading a source

Characters are pulled from a source in pieces of any size, through a gate where a
ceiling on their number is in force.

- `Reader`: what is left of a source's segments.
- `Gate`: a reader behind a ceiling.
- `Feed`: a reader with or without a gate.
- `Feed.drain`: pulls everything.
-/

namespace GuardedQuery

/-- A position in a source: the unread part of the current segment and the segments
after it. -/
structure Reader where
  pending : List (List Char)
deriving Repr, DecidableEq

namespace Reader

def remaining (reader : Reader) : List Char :=
  reader.pending.flatten

/-- The next characters of the segments, at most `n`, and what is left of the segments. -/
def takeChars : Nat → List (List Char) → List Char × List (List Char)
  | _, [] => ([], [])
  | n, segment :: later =>
    match segment.drop n with
    | [] =>
      let (more, rest) := takeChars (n - segment.length) later
      (segment ++ more, rest)
    | c :: left => (segment.take n, (c :: left) :: later)

/-- Reads the next characters, at most `n`.  Fewer are read only at the end. -/
def read (reader : Reader) (n : Nat) : List Char × Reader :=
  let (chars, pending) := takeChars n reader.pending
  (chars, ⟨pending⟩)

def isExhausted (reader : Reader) : Bool :=
  reader.pending.all (·.isEmpty)

theorem takeChars_append (n : Nat) (pending : List (List Char)) :
    (takeChars n pending).1 ++ (takeChars n pending).2.flatten = pending.flatten := by
  fun_induction takeChars n pending with
  | case1 => rfl
  | case2 n segment later h more rest hrec ih =>
    simp only [hrec] at ih
    simp [← ih, List.append_assoc]
  | case3 n segment later c left h =>
    rw [List.flatten_cons, List.flatten_cons, ← List.append_assoc, ← h, List.take_append_drop]

/-- What was read and what is left make up what was left before. -/
theorem read_append (reader : Reader) (n : Nat) :
    (reader.read n).1 ++ (reader.read n).2.remaining = reader.remaining :=
  takeChars_append n reader.pending

end Reader

def Source.reader (source : Source) : Reader :=
  ⟨source.segments.map (·.content.toList)⟩

structure Gate where
  reader : Reader
  ceiling : UInt32
  consumed : Nat := 0
deriving Repr, DecidableEq

namespace Gate

/-- Reads at most `n` characters and never past the ceiling.  At the ceiling the read
fails, unless nothing is left. -/
def read (gate : Gate) (n : Nat) : Except ReadFault (List Char × Gate) :=
  if gate.consumed < gate.ceiling.toNat then
    let (chars, reader) := gate.reader.read (min n (gate.ceiling.toNat - gate.consumed))
    .ok (chars, { gate with reader, consumed := gate.consumed + chars.length })
  -- A source of exactly `ceiling` characters is not over it.
  else if gate.reader.isExhausted then .ok ([], gate)
  else .error (.tooManyCharacters gate.ceiling)

end Gate

inductive Feed where
  | plain (reader : Reader)
  | gated (gate : Gate)
deriving Repr, DecidableEq

namespace Feed

def reader : Feed → Reader
  | plain reader => reader
  | gated gate => gate.reader

def consumed? : Feed → Option Nat
  | plain _ => none
  | gated gate => some gate.consumed

def read (n : Nat) : Feed → Except ReadFault (List Char × Feed)
  | plain reader => let (chars, reader) := reader.read n; .ok (chars, plain reader)
  | gated gate => (gate.read n).map fun (chars, gate) => (chars, gated gate)

def isExhausted (feed : Feed) : Bool :=
  feed.reader.isExhausted

/-- What a successful read gives and what is left make up what was left before. -/
theorem read_append {n : Nat} {feed next : Feed} {chars : List Char}
    (h : feed.read n = .ok (chars, next)) :
    chars ++ next.reader.remaining = feed.reader.remaining := by
  cases feed with
  | plain reader =>
    simp only [read, Except.ok.injEq, Prod.mk.injEq] at h
    obtain ⟨rfl, rfl⟩ := h
    exact reader.read_append n
  | gated gate =>
    simp only [read, Gate.read] at h
    split at h
    · simp only [Except.map, Except.ok.injEq, Prod.mk.injEq] at h
      obtain ⟨rfl, rfl⟩ := h
      exact gate.reader.read_append _
    · split at h
      · simp only [Except.map, Except.ok.injEq, Prod.mk.injEq] at h
        obtain ⟨rfl, rfl⟩ := h
        rfl
      · simp [Except.map] at h

def chunkSize : Nat := 4096

/-- Pulls until nothing comes, appending to `text`.  Gives the text or the fault, and
the feed as the last pull left it. -/
def drainInto (text : String) (feed : Feed) : Except ReadFault String × Feed :=
  match h : feed.read chunkSize with
  | .error fault => (.error fault, feed)
  | .ok ([], next) => (.ok text, next)
  | .ok (c :: chars, next) =>
    have : next.reader.remaining.length < feed.reader.remaining.length := by
      rw [← read_append h, List.length_append, List.length_cons]; omega
    drainInto (text ++ String.ofList (c :: chars)) next
termination_by feed.reader.remaining.length

def drain (feed : Feed) : Except ReadFault String × Feed :=
  drainInto "" feed

end Feed

end GuardedQuery
