import GuardedQuery.Proofs.Parse.Protocol

/-! # Where faults are

Whatever ends a parse, a ceiling, a syntax error or input that is left over, it is raised at
a significant token of the source or at the end of the input, and keeps the text there.

- `Fault.At`: a fault that is raised at a place.
- `breach?_at`: a ceiling is passed at the next place.
- `Trace.fault_at`: what becomes of a run that no ceiling cuts short.
- `Document.fault_at`: the faults of a parse.
-/

namespace GuardedQuery

def Fault.At (source : Source) (place : Place) (fault : Fault) : Prop :=
  fault.offending = some place.text ∧ fault.location = source.locate place.range.start

variable {limits : Limits} {source : Source} {size : Nat} {tokens rest : List Token}
  {rules last : List NodeKind} {fault : Fault}

/-- An event that is one too many is one at the next place. -/
theorem breach?_at {seen after : List Event} {event : Event}
    (h : Follows size rules tokens (event :: after) last rest)
    (hbreach : breach? limits source seen event = some fault) :
    fault.At source (Place.before size tokens) := by
  cases h with
  | enter _ _ =>
    obtain ⟨ceiling, -, rfl⟩ := Option.map_eq_some_iff.1 hbreach
    exact ⟨rfl, rfl⟩
  | terminal _ _ =>
    obtain ⟨ceiling, -, rfl⟩ := Option.map_eq_some_iff.1 hbreach
    exact ⟨rfl, rfl⟩
  | exit _ | anomaly _ => cases hbreach

/-- So is every event of a run that a ceiling cuts short. -/
theorem Conducted.fault_at {trace : Trace} (h : Conducted size tokens trace)
    {before : List Event} (hbreach : firstBreach? limits source [] trace.events =
      some (before, fault)) :
    ∃ rest, rest <:+ tokens ∧ fault.At source (Place.before size rest) := by
  obtain ⟨events, rules, rest, htrace, hfollows⟩ := h.exists_follows
  obtain ⟨front, event, back, hevents, hbefore, hevent⟩ := of_firstBreach? hbreach
  rw [htrace] at hevents
  cases front with
  | nil =>
    cases hevents
    obtain ⟨ceiling, -, rfl⟩ := Option.map_eq_some_iff.1 hevent
    exact ⟨tokens, List.suffix_refl tokens, rfl, rfl⟩
  | cons first front =>
    cases hevents
    exact ⟨_, List.drop_suffix _ _, breach?_at hfollows.at_event hevent⟩

/-- A run that nobody cuts short ends at a place too, unless it completes. -/
theorem Trace.fault_at {trace : Trace} (h : Explained size tokens trace) (text : String)
    (hfault : trace.result (.located source) text = .error fault) :
    ∃ rest, rest <:+ tokens ∧ fault.At source (Place.before size rest) := by
  cases h with
  | complete _ _ => cases hfault
  | @trailing children token rest _ htokens _ =>
    cases hfault
    refine ⟨[(token :: rest).getLast (by simp)], ?_, rfl, rfl⟩
    refine ⟨Tree.allLeaves children ++ (token :: rest).dropLast, ?_⟩
    rw [List.append_assoc, List.dropLast_concat_getLast, htokens]
  | anomaly _ htokens _ _ _ =>
    cases hfault
    exact ⟨_, ⟨_, htokens.symm⟩, rfl, rfl⟩

/-- A fault of a parse is raised at a significant token or at the end of the input, unless
the source has too many characters to be read. -/
theorem Document.fault_at (h : parse limits source = .error fault) :
    fault.location = none ∨ ∃ rest, rest <:+ significant (lex source.text) ∧
      fault.At source (Place.before source.text.utf8ByteSize rest) := by
  rw [parse_eq, parseRecorded_eq] at h
  cases hover : limits.charCeiling?.filter (·.toNat < source.text.length) with
  | some ceiling =>
    rw [hover] at h
    cases h
    exact .inl rfl
  | none =>
    obtain ⟨last, hguarded⟩ := guarded_eq limits (nested_textTrace source.text)
    rw [hover, hguarded] at h
    cases hbreach : firstBreach? limits source [] (textTrace source.text).events with
    | some breach =>
      obtain ⟨before, other⟩ := breach
      rw [hbreach] at h
      cases h
      exact .inr ((traceGoals_conducted _ _).fault_at hbreach)
    | none =>
      rw [hbreach] at h
      refine .inr (Trace.fault_at (textTrace_explained source.text) source.text ?_)
      cases hresult : (textTrace source.text).result (.located source) source.text with
      | ok value =>
        simp only [hresult] at h
        cases h
      | error other =>
        simp only [hresult] at h
        cases h
        rfl

end GuardedQuery
