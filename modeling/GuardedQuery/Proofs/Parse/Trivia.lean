import GuardedQuery.Proofs.Parse.Comparison
import GuardedQuery.Proofs.Relocation.Dumping
import GuardedQuery.Proofs.Relocation.Reading
import GuardedQuery.Proofs.Relocation.Validation
import GuardedQuery.Proofs.Source.Segments
import GuardedQuery.Proofs.Token.Tiling

/-! # Trivia does not matter

What stands between the significant tokens of a source decides only where they stand.  The
trees of two sources with the same significant tokens are the tree of the packed tokens,
moved apart in two ways.

- `Document.Alike`, `Document.ParsesAlike`: what two parses have in common.
- `Document.alike_of_complete`: documents of the same significant tokens.
- `Document.parse_of_significant_eq`: events, documents, findings and faults.
-/

namespace GuardedQuery

open Grammar GuardedQuery.Tree

/-- Significant tokens stand apart. -/
theorem Adjoin.spaced {offset least : Nat} {tokens : List Token} (h : Adjoin offset tokens)
    (hnonempty : ∀ token ∈ tokens, token.text ≠ "") (hleast : least ≤ offset) :
    Spaced least (significant tokens) := by
  induction tokens generalizing offset least with
  | nil => trivial
  | cons token tokens ih =>
    obtain ⟨rfl, hrest⟩ := h
    rw [List.forall_mem_cons] at hnonempty
    rw [significant_cons]
    split
    · exact ih hrest hnonempty.2 (Nat.le_trans hleast (Nat.le_add_right _ _))
    · exact ⟨hleast, hnonempty.1, ih hrest hnonempty.2 (Nat.le_refl _)⟩

namespace Document

/-- Documents with one plain dump, one reading up to ranges and, under any limits, the same
node-count fault or findings of the same kinds and messages in the same order. -/
structure Alike (first second : Document) : Prop where
  dump : first.dump {} = second.dump {}
  executable : first.executable.relocate .forget = second.executable.relocate .forget
  findings (limits : Limits) :
    (first.validate limits).map Findings.said = (second.validate limits).map Findings.said

/-- Both parses give a document, and these are alike, or both fail with a fault of the same
kind, message and offending text. -/
inductive ParsesAlike : Except Fault Document → Except Fault Document → Prop where
  | ok {first second : Document} (h : first.Alike second) : ParsesAlike (.ok first) (.ok second)
  | error {first second : Fault} (hkind : first.kind = second.kind)
      (hmessage : first.message = second.message)
      (hoffending : first.offending = second.offending) :
      ParsesAlike (.error first) (.error second)

/-! ## Documents -/

section packed

variable {text : String} {packed : List Tree}

/-- The document of a text is the derivation of its packed tokens, moved apart. -/
theorem exists_relocated (h : Derives (production .document false) packed)
    (hleaves : allLeaves packed = pack 0 ((significant (lex text)).map Token.lexeme)) :
    ∃ r : Relocation, r.Ordered ∧ (∀ token ∈ allLeaves packed, token.Fits r) ∧
      significant (lex text) = allLeaves (relocateAll r packed) ∧
      textTrace text = ⟨allEvents [.node .document (relocateAll r packed)], .complete⟩ := by
  have htiles := lex_tiles text
  obtain ⟨r, hr, htokens, hfits⟩ :=
    exists_relocation (htiles.adjoin.spaced htiles.nonempty (Nat.le_refl 0))
  rw [← hleaves, ← allLeaves_relocateAll] at htokens
  refine ⟨r, hr, hleaves ▸ hfits, htokens.symm, ?_⟩
  rw [textTrace, ← htokens, traceGoals_complete (h.relocate r)]

/-- What the document of a text says can be read off the derivation of its packed tokens. -/
theorem facts_of_packed (h : Derives (production .document false) packed)
    (hleaves : allLeaves packed = pack 0 ((significant (lex text)).map Token.lexeme))
    {document : Document}
    (hdocument : document = ⟨assemble (lex text) (textTrace text).events⟩) :
    document.dump {} = (Tree.node .document packed).dump {} ∧
      document.executable.relocate .forget =
        ⟨.empty 0, (definitions packed).map (Definition.relocate .forget)⟩ ∧
      ∀ limits, (document.validate limits).map Findings.said =
        ((Validator.ofLimits limits).judge ⟨.empty 0, definitions packed⟩).map Findings.said := by
  obtain ⟨r, hr, hfits, htokens, htrace⟩ := exists_relocated h hleaves
  have hmoved := h.relocate r
  have hplain := (assemble_allEvents (hmoved.proper (production_isInner _ _)) htokens).1
  have hdefinitions := definitions_of_derives hmoved htokens
  rw [htrace] at hdocument
  rw [← hdocument, definitions_relocateAll hfits] at hdefinitions
  have hchildren : document.children =
      assemble (lex text) (allEvents [.node .document (relocateAll r packed)]) := by
    rw [hdocument]
  rw [← hchildren] at hplain
  refine ⟨dump_of_allWithoutTrivia .document hplain, ?_, fun limits => ?_⟩
  · rw [Executable.relocate, hdefinitions, List.map_map]
    exact congrArg _ (List.map_congr_left fun definition _ => definition.forget_relocate r)
  · rw [Validator.validate_eq_judge]
    exact Validator.said_judge_of_definitions hr hdefinitions limits

end packed

/-- Two texts with the same significant tokens, one of which is a document. -/
theorem alike_of_complete {a b : String}
    (h : (significant (lex a)).map Token.lexeme = (significant (lex b)).map Token.lexeme)
    (hcomplete : (textTrace a).ending = .complete) :
    Alike ⟨assemble (lex a) (textTrace a).events⟩ ⟨assemble (lex b) (textTrace b).events⟩ := by
  have hdocument : IsDocument ((significant (lex a)).map Token.lexeme) := by
    have hexplained := textTrace_explained a
    generalize textTrace a = trace at hcomplete hexplained
    cases hexplained with
    | complete hderives htokens => exact isDocument_iff.mpr ⟨_, hderives, htokens.symm⟩
    | trailing => cases hcomplete
    | anomaly => cases hcomplete
  -- Both documents are compared with the derivation of the packed tokens.
  rw [← lexeme_pack 0 ((significant (lex a)).map Token.lexeme)] at hdocument
  obtain ⟨packed, hpacked, hleaves⟩ := isDocument_iff.mp hdocument
  obtain ⟨hdump, hexecutable, hfindings⟩ := facts_of_packed hpacked hleaves rfl
  obtain ⟨hdump', hexecutable', hfindings'⟩ := facts_of_packed hpacked (h ▸ hleaves) rfl
  exact ⟨hdump.trans hdump'.symm, hexecutable.trans hexecutable'.symm,
    fun limits => (hfindings limits).trans (hfindings' limits).symm⟩

/-! ## Parses -/

/-- Without the character check the guards of two parses admit alike events and fail alike. -/
theorem guarded_alike {a b : Source} (limits : Limits)
    (h : (textTrace a.text).Alike (textTrace b.text)) :
    List.Forall₂ Event.AlikeAnywhere (guarded limits a).1.admitted (guarded limits b).1.admitted ∧
      Option.Rel (fun fault other => fault.cause = other.cause ∧ fault.offending = other.offending)
        (guarded limits a).2 (guarded limits b).2 := by
  have hguards : Observer.Simulates Eq Event.AlikeAnywhere
      (fun fault other => fault.cause = other.cause ∧ fault.offending = other.offending)
      (Guard.observe a) (Guard.observe b) :=
    Guard.simulates fun _ _ _ _ _ => ⟨rfl, rfl⟩
  have hstate : Option.Rel Eq (Guard.ofLimits? limits) (Guard.ofLimits? limits) := by
    cases Guard.ofLimits? limits with
    | none => exact .none
    | some guard => exact .some rfl
  exact (hguards.optional.report (p := ⟨_, []⟩) (q := ⟨_, []⟩) hstate .nil h.events).2

/-- The results of two traces that nobody vetoes. -/
theorem result_alike {a b : Source}
    (h : (significant (lex a.text)).map Token.lexeme =
      (significant (lex b.text)).map Token.lexeme) :
    ParsesAlike (((textTrace a.text).result (.located a) a.text).map (·.1))
      (((textTrace b.text).result (.located b) b.text).map (·.1)) := by
  have hending : (textTrace a.text).ending.Alike (textTrace b.text).ending :=
    (traceGoals_alike h _ _ documentGoals).ending
  have hcomplete := alike_of_complete h
  revert hending hcomplete
  simp only [Trace.result]
  generalize (textTrace a.text).ending = ending
  generalize (textTrace b.text).ending = ending'
  intro hending hcomplete
  cases hending with
  | complete => exact .ok (hcomplete rfl)
  | @trailing last other hlexeme =>
    have htext : last.text = other.text := congrArg Lexeme.text hlexeme
    exact .error rfl (by simp [FaultPolicy.located, Fault.message, htext])
      (congrArg some htext)
  | anomaly => exact .error rfl rfl rfl

end Document

end GuardedQuery
