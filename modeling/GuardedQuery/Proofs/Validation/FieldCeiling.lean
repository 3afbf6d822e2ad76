import GuardedQuery.Proofs.Executable.FieldNodes
import GuardedQuery.Proofs.Parse.Ceilings
import GuardedQuery.Proofs.Validation.Collecting

/-! # The ceiling on fields

A validation fails exactly if the document has more field nodes than the ceiling allows, at
the first one too many.  The rules have no part in this, whatever they do and however many
findings they have, and the failure passes through all levels of the walk.

- `FieldGuard.watch`: the check in front of rules of any making.
- `FieldGuard.Counted`: the count of a guard, put against the fields seen.
- `FieldGuard.traverse_watch`, `FieldGuard.traverse_watch_of_excess`: a whole walk.
- `Validator.run_under_ceiling`: a validation under a ceiling.
-/

namespace GuardedQuery

namespace FieldGuard

def watch {σ : Type} (tell : σ → Visit → σ) (state : FieldGuard × σ) (next : Visit) :
    (FieldGuard × σ) × Option Fault :=
  match next with
  | .field f =>
    match state.1.check f with
    | (guard, some fault) => ((guard, state.2), some fault)
    | (guard, none) => ((guard, tell state.2 next), none)
  | _ => ((state.1, tell state.2 next), none)

def excess (ceiling : UInt32) (name : Token) : Fault :=
  { cause := .tooManyNodes ceiling, offending := some name.text }

/-! ## One field -/

/-- The guard of this ceiling has counted as many fields as were seen.  The ceiling leaves room
in its word for one more. -/
structure Counted (ceiling : UInt32) (seen : Nat) (guard : FieldGuard) : Prop where
  ceiling_eq : guard.ceiling = ceiling
  ceiling_lt : ceiling.toNat < 2147483648
  count_eq : guard.count.toNat = seen

variable {ceiling : UInt32} {seen : Nat} {guard : FieldGuard}

theorem Counted.fresh (hceiling : ceiling.toNat < 2147483648) : Counted ceiling 0 { ceiling } :=
  ⟨rfl, hceiling, rfl⟩

theorem Counted.add_one (h : Counted ceiling seen guard) (hseen : seen ≤ ceiling.toNat) :
    Counted ceiling (seen + 1) { guard with count := guard.count + 1 } := by
  refine ⟨h.ceiling_eq, h.ceiling_lt, ?_⟩
  have hword := h.ceiling_lt
  rw [UInt32.toNat_add, UInt32.toNat_one, h.count_eq]
  exact Nat.mod_eq_of_lt (by omega)

/-- A field is let through if there is room for it, and else named in the fault. -/
theorem Counted.check (h : Counted ceiling seen guard) (field : Field)
    (hseen : seen ≤ ceiling.toNat) :
    ∃ counted, Counted ceiling (seen + 1) counted ∧ guard.check field =
      (counted, if seen < ceiling.toNat then none else some (excess ceiling field.name)) := by
  have hcounted := h.add_one hseen
  refine ⟨_, hcounted, ?_⟩
  have hle : guard.count + 1 ≤ ceiling ↔ seen < ceiling.toNat := by
    rw [UInt32.le_iff_toNat_le, hcounted.count_eq, Nat.succ_le_iff]
  simp only [FieldGuard.check, h.ceiling_eq, hle, excess]

/-! ## A whole walk -/

section watch

variable {σ : Type} (tell : σ → Visit → σ) {visits before : List Visit}

/-- A walk goes on behind visits for whose fields there is room, with rules that were told all
of them. -/
theorem traverse_watch_append (h : Counted ceiling seen guard)
    (hroom : seen + (before.filterMap Visit.field?).length ≤ ceiling.toNat) (state : σ) :
    ∃ counted, Counted ceiling (seen + (before.filterMap Visit.field?).length) counted ∧
      ∀ rest, traverse (watch tell) (guard, state) (before ++ rest) =
        traverse (watch tell) (counted, before.foldl tell state) rest := by
  induction before generalizing guard seen state with
  | nil => exact ⟨guard, h, fun _ => rfl⟩
  | cons next before ih =>
    cases next with
    | field f =>
      have hlength : ((Visit.field f :: before).filterMap Visit.field?).length =
          (before.filterMap Visit.field?).length + 1 := rfl
      rw [hlength] at hroom ⊢
      obtain ⟨counted, hcounted, hcheck⟩ := h.check f (by omega)
      rw [if_pos (by omega)] at hcheck
      obtain ⟨last, hlast, hrest⟩ := ih hcounted (by omega) (tell state (.field f))
      refine ⟨last, by rwa [Nat.add_right_comm] at hlast, fun rest => ?_⟩
      rw [List.cons_append, traverse, watch]
      simp only [hcheck]
      exact hrest rest
    | _ => exact ih h hroom _

/-- With room for all fields the rules are told all visits. -/
theorem traverse_watch (hceiling : ceiling.toNat < 2147483648)
    (hroom : (visits.filterMap Visit.field?).length ≤ ceiling.toNat) (state : σ) :
    ∃ counted, traverse (watch tell) ({ ceiling }, state) visits =
      ((counted, visits.foldl tell state), none) := by
  obtain ⟨counted, -, hwalk⟩ :=
    traverse_watch_append tell (.fresh hceiling) (by rwa [Nat.zero_add]) state
  refine ⟨counted, ?_⟩
  have hall := hwalk []
  rwa [List.append_nil] at hall

/-- The walk ends at the first field that is one too many, with rules that were told what
stands in front of it. -/
theorem traverse_watch_of_excess (hceiling : ceiling.toNat < 2147483648)
    (hbefore : (before.filterMap Visit.field?).length = ceiling.toNat) (field : Field)
    (rest : List Visit) (state : σ) :
    ∃ counted, traverse (watch tell) ({ ceiling }, state) (before ++ .field field :: rest) =
      ((counted, before.foldl tell state), some (excess ceiling field.name)) := by
  obtain ⟨counted, hcounted, hwalk⟩ :=
    traverse_watch_append tell (.fresh hceiling) (by rw [hbefore, Nat.zero_add]) state
  rw [hbefore, Nat.zero_add] at hcounted
  obtain ⟨last, -, hcheck⟩ := hcounted.check field (Nat.le_refl _)
  rw [if_neg (Nat.lt_irrefl _)] at hcheck
  refine ⟨last, ?_⟩
  rw [hwalk, traverse, watch]
  simp only [hcheck]

end watch

end FieldGuard

namespace Validator

/-! ## Validators -/

/-- A validator with a check is the check in front of its rules. -/
theorem visit_eq_watch (validator : Validator) (guard : FieldGuard) (next : Visit) :
    { validator with guard := some guard }.visit next =
      let told := FieldGuard.watch visitRules (guard, validator) next
      ({ told.1.2 with guard := some told.1.1 }, told.2) := by
  cases next with
  | field f =>
    simp only [visit, FieldGuard.watch]
    rcases guard.check f with ⟨counted, _ | fault⟩ <;> rfl
  | _ => rfl

theorem traverse_eq_watch (validator : Validator) (guard : FieldGuard) (visits : List Visit) :
    traverse visit { validator with guard := some guard } visits =
      let told := traverse (FieldGuard.watch visitRules) (guard, validator) visits
      ({ told.1.2 with guard := some told.1.1 }, told.2) := by
  induction visits generalizing validator guard with
  | nil => rfl
  | cons next rest ih =>
    rw [traverse, traverse, visit_eq_watch]
    rcases FieldGuard.watch visitRules (guard, validator) next with ⟨⟨counted, told⟩, _ | fault⟩
    · exact ih told counted
    · rfl

variable {admitted limits : Limits} {source : Source} {document : Document} {ceiling : UInt32}

theorem exists_run_of_room {validator : Validator} (hguard : validator.guard = some { ceiling })
    (hceiling : ceiling.toNat < 2147483648)
    (hroom : (document.executable.visits.filterMap Visit.field?).length ≤ ceiling.toNat) :
    ∃ findings, validator.run document = .ok findings := by
  have hself : validator = { validator with guard := some { ceiling } } := by rw [← hguard]
  obtain ⟨counted, hwalk⟩ := FieldGuard.traverse_watch visitRules hceiling hroom validator
  rw [hself, run, traverse_eq_watch, hwalk]
  exact ⟨_, rfl⟩

theorem run_of_excess {validator : Validator} (hguard : validator.guard = some { ceiling })
    (hceiling : ceiling.toNat < 2147483648) {before rest : List Visit} {field : Field}
    (hvisits : document.executable.visits = before ++ .field field :: rest)
    (hbefore : (before.filterMap Visit.field?).length = ceiling.toNat) :
    validator.run document = .error (FieldGuard.excess ceiling field.name) := by
  have hself : validator = { validator with guard := some { ceiling } } := by rw [← hguard]
  obtain ⟨counted, hwalk⟩ :=
    FieldGuard.traverse_watch_of_excess visitRules hceiling hbefore field rest validator
  rw [hself, run, hvisits, traverse_eq_watch, hwalk]

/-- Under a ceiling a validation fails exactly if the document has more field nodes, at any
depth.  The fault has no location and names the ceiling and the field behind as many as it
allows, in the order of the document, and not the name of its result.  Otherwise the outcome
is that without the check.  This holds of any rules and of any collector, full or not, and the
walk from callback to callback ends at this field: what the rules were told is what stands in
front of it. -/
theorem run_under_ceiling (hparse : Document.parse admitted source = .ok document)
    (hceiling : limits.nodeCeiling? = some ceiling) :
    let fields := document.fieldNodes
    let visits := document.executable.visits
    (∀ (rules : List Rule) (findings : Findings),
      let validator : Validator := { guard := FieldGuard.ofLimits? limits, rules, findings }
      ((∃ fault, validator.run document = .error fault) ↔ ceiling.toNat < fields.length) ∧
      (∀ field, fields[ceiling.toNat]? = some field →
        ∃ name, field.ownName? = some name ∧ validator.run document =
          .error ⟨.tooManyNodes ceiling, some name.text, none⟩) ∧
      (fields.length ≤ ceiling.toNat →
        validator.run document = validator.unguarded.run document)) ∧
    ∀ {σ : Type} (tell : σ → Visit → σ) (state : σ),
      let walk := outcome
        ((document.executable.walk (call (FieldGuard.watch tell))).run ({ ceiling }, state))
      (fields.length ≤ ceiling.toNat →
        ∃ guard, walk = ((guard, visits.foldl tell state), none)) ∧
      ∀ field, fields[ceiling.toNat]? = some field →
        ∃ visited before rest guard, visits = before ++ .field visited :: rest ∧
          field.ownName? = some visited.name ∧
          (before.filterMap Visit.field?).length = ceiling.toNat ∧
          walk = ((guard, before.foldl tell state),
            some ⟨.tooManyNodes ceiling, some visited.name.text, none⟩) := by
  intro fields visits
  have hword : ceiling.toNat < 2147483648 := Limits.ceiling?_lt hceiling
  have hlength : (visits.filterMap Visit.field?).length = fields.length :=
    Document.length_fieldNodes hparse
  have hsplit {field : Tree} (h : fields[ceiling.toNat]? = some field) :=
    Document.exists_split_of_fieldNodes hparse h
  refine ⟨fun rules findings => ?_, fun tell state => ?_⟩
  · intro validator
    have hguard : validator.guard = some { ceiling } := by
      simp [validator, FieldGuard.ofLimits?, hceiling]
    have hok (hroom : fields.length ≤ ceiling.toNat) :
        ∃ found, validator.run document = .ok found :=
      exists_run_of_room hguard hword (by rwa [hlength])
    have herror (field : Tree) (hfield : fields[ceiling.toNat]? = some field) :
        ∃ name, field.ownName? = some name ∧
          validator.run document = .error (FieldGuard.excess ceiling name) := by
      obtain ⟨visited, before, rest, hvisits, hname, hbefore⟩ := hsplit hfield
      exact ⟨visited.name, hname, run_of_excess hguard hword hvisits hbefore⟩
    refine ⟨⟨?_, fun hmore => ?_⟩, herror, fun hroom => ?_⟩
    · rintro ⟨fault, hfault⟩
      refine Nat.lt_of_not_le fun hroom => ?_
      obtain ⟨found, hfound⟩ := hok hroom
      rw [hfault] at hfound
      cases hfound
    · obtain ⟨name, -, hfault⟩ := herror _ (List.getElem?_eq_getElem hmore)
      exact ⟨_, hfault⟩
    · obtain ⟨found, hfound⟩ := hok hroom
      rw [hfound, run_unguarded hfound]
  · intro walk
    have hwalk : walk = traverse (FieldGuard.watch tell) ({ ceiling }, state) visits :=
      document.executable.outcome_walk _ _
    rw [hwalk]
    refine ⟨fun hroom => FieldGuard.traverse_watch tell hword (by rwa [hlength]) state,
      fun field hfield => ?_⟩
    obtain ⟨visited, before, rest, hvisits, hname, hbefore⟩ := hsplit hfield
    obtain ⟨guard, hends⟩ :=
      FieldGuard.traverse_watch_of_excess tell hword hbefore visited rest state
    rw [← hvisits] at hends
    exact ⟨visited, before, rest, guard, hvisits, hname, hbefore, hends⟩

/-- Room for one of three fields, and for no finding.  The second field gives its result
another name. -/
theorem run_under_ceiling_of_one :
    let source : Source := ⟨[⟨none, "\x7ba x:b\x7bc\x7d\x7d", 0⟩], 10⟩
    let limits : Limits := { nodes := 1 }
    let validator : Validator := { guard := FieldGuard.ofLimits? limits, findings := ⟨0, #[]⟩ }
    ∃ document, Document.parse {} source = .ok document ∧ limits.nodeCeiling? = some 1 ∧
      document.fieldNodes.length = 3 ∧
      validator.run document = .error ⟨.tooManyNodes 1, some "b", none⟩ := by
  intro source limits validator
  have hnames : (Document.parse {} source).toOption.map
      (fun document => document.fieldNodes.map fun node => node.ownName?.map (·.text)) =
        some [some "a", some "b", some "c"] := by decide +kernel
  obtain ⟨document, hparse, hfields⟩ := Document.exists_parse_of_map hnames
  have hceiling : limits.nodeCeiling? = some 1 := by decide
  have hlength : document.fieldNodes.length = 3 := by
    have hcount := congrArg List.length hfields
    simpa using hcount
  obtain ⟨hrun, -⟩ := run_under_ceiling hparse hceiling
  obtain ⟨-, hfault, -⟩ := hrun (RuleName.all.map Rule.fresh) ⟨0, #[]⟩
  obtain ⟨name, hname, hresult⟩ := hfault document.fieldNodes[1] (List.getElem?_eq_getElem _)
  have htext : name.text = "b" := by
    have hsecond := congrArg (·[1]?) hfields
    simpa [hlength, hname] using hsecond
  rw [htext] at hresult
  exact ⟨document, hparse, hceiling, hlength, hresult⟩

end Validator

end GuardedQuery
