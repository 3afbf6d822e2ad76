import GuardedQuery.Proofs.Validation.Collecting
import GuardedQuery.Proofs.Validation.Scopes

/-! # What the rule on variables finds

The findings on variables against the document itself: operation by operation, which uses
have no definition and which definitions have no use.

- `Executable.Misfits`: what an operation uses without a definition and defines without a use.
- `Executable.ReportsVariables`: findings that are exact about these.
- `Validator.run_reports_variables`: a validation gives these.
-/

namespace GuardedQuery

namespace Operation

def suffix (operation : Operation) : String :=
  match operation.name with
  | some name => " by operation '" ++ name.text ++ "'"
  | none => ""

def undefinedVariable (operation : Operation) (target : Variable) : Finding :=
  ⟨.undefinedVariable, target.range,
    "variable '$" ++ target.name.text ++ "' is not defined" ++ operation.suffix⟩

def unusedVariable (operation : Operation) (definition : VariableDefinition) : Finding :=
  ⟨.unusedVariable, definition.target.range,
    "variable '$" ++ definition.target.name.text ++ "' is never used" ++ operation.suffix⟩

end Operation

namespace Executable

/-- The first list holds every variable that the operation uses and does not define, the
second one every definition that comes first with its name and whose name is not used. -/
structure Misfits (doc : Executable) (operation : Operation) (undefined : List Variable)
    (unused : List VariableDefinition) : Prop where
  nodup_undefined : undefined.Nodup
  mem_undefined : ∀ target, target ∈ undefined ↔ doc.Uses operation target ∧
    ¬∃ definition ∈ operation.definedVariables, definition.target.name.text = target.name.text
  nodup_unused : (unused.map (·.target.name.text)).Nodup
  mem_unused : ∀ definition, definition ∈ unused ↔
    operation.definedVariables.find? (·.target.name.text = definition.target.name.text) =
      some definition ∧
    ¬∃ target, doc.Uses operation target ∧ target.name.text = definition.target.name.text

/-- For every operation there is one finding for every use without a definition and one for
every definition without a use. -/
structure ReportsVariables (doc : Executable) (findings : List Finding) : Prop where
  distinct : (doc.uses.map Variable.range).Nodup
  perm : ∃ (undefined : Operation → List Variable) (unused : Operation → List VariableDefinition),
    (∀ operation ∈ doc.operations,
      doc.Misfits operation (undefined operation) (unused operation)) ∧
    findings.Perm (doc.operations.flatMap fun operation =>
      (undefined operation).map operation.undefinedVariable ++
        (unused operation).map operation.unusedVariable)

variable {doc : Executable} {operation : Operation} {target : Variable}

/-- What an operation uses stands in some definition. -/
theorem Uses.mem_uses (h : doc.Uses operation target) (hoperation : operation ∈ doc.operations) :
    target ∈ doc.uses := by
  rcases h with htarget | ⟨fragment, hfragment, -, htarget⟩
  · exact List.mem_flatMap.2 ⟨.operation operation, mem_operations.1 hoperation, htarget⟩
  · exact List.mem_flatMap.2 ⟨.fragment fragment, mem_fragments.1 hfragment, htarget⟩

theorem Distinct.eq_of_place (h : doc.Distinct) {first second : Variable}
    (hfirst : first ∈ doc.uses) (hsecond : second ∈ doc.uses)
    (hplace : first.place = second.place) : first = second :=
  h.eq_of_range hfirst hsecond (congrArg Prod.snd hplace)

end Executable

namespace VariableUsage

/-! ## Each use once -/

theorem mem_foldl_distinct {uses seen : List (String × ByteRange)} {place : String × ByteRange} :
    place ∈ uses.foldl (fun seen use => if seen.contains use then seen else use :: seen) seen ↔
      place ∈ seen ∨ place ∈ uses := by
  induction uses generalizing seen with
  | nil => simp
  | cons use uses ih =>
    rw [List.foldl_cons, ih, List.mem_cons]
    by_cases hseen : use ∈ seen
    · rw [if_pos (List.contains_iff_mem.2 hseen)]
      constructor
      · tauto
      · rintro (hplace | rfl | hplace)
        · exact .inl hplace
        · exact .inl hseen
        · exact .inr hplace
    · rw [if_neg (mt List.contains_iff_mem.1 hseen), List.mem_cons]
      tauto

theorem nodup_foldl_distinct {uses seen : List (String × ByteRange)} (h : seen.Nodup) :
    (uses.foldl (fun seen use => if seen.contains use then seen else use :: seen) seen).Nodup := by
  induction uses generalizing seen with
  | nil => exact h
  | cons use uses ih =>
    rw [List.foldl_cons]
    apply ih
    split
    next => exact h
    next hnew => exact List.nodup_cons.2 ⟨mt List.contains_iff_mem.2 hnew, h⟩

theorem mem_distinct {uses : List (String × ByteRange)} {place : String × ByteRange} :
    place ∈ distinct uses ↔ place ∈ uses := by
  rw [distinct, List.mem_reverse, mem_foldl_distinct]
  simp

theorem nodup_distinct (uses : List (String × ByteRange)) : (distinct uses).Nodup :=
  List.nodup_reverse.2 (nodup_foldl_distinct List.nodup_nil)

/-! ## What the rule reports -/

variable {rule : VariableUsage} {doc : Executable} {operation : Operation}

def undefinedPlaces (rule : VariableUsage) (operation : Operation) : List (String × ByteRange) :=
  distinct ((rule.allUses operation.scope.scope).filter fun place =>
    !operation.scope.defined.contains place.1)

def undefinedUses (rule : VariableUsage) (doc : Executable) (operation : Operation) :
    List Variable :=
  doc.uses.filter fun target => (rule.undefinedPlaces operation).contains target.place

def unusedDefinitions (rule : VariableUsage) (operation : Operation) : List VariableDefinition :=
  (firstsBy (·.target.name.text) operation.definedVariables).filter fun definition =>
    !(rule.allUses operation.scope.scope).any (·.1 == definition.target.name.text)

theorem nodup_undefinedPlaces (rule : VariableUsage) (operation : Operation) :
    (rule.undefinedPlaces operation).Nodup :=
  nodup_distinct _

theorem mem_undefinedPlaces {place : String × ByteRange} :
    place ∈ rule.undefinedPlaces operation ↔ place ∈ rule.allUses operation.scope.scope ∧
      ¬∃ definition ∈ operation.definedVariables, definition.target.name.text = place.1 := by
  rw [undefinedPlaces, mem_distinct, List.mem_filter, Bool.not_eq_true', ← Bool.not_eq_true]
  exact and_congr_right' (not_congr ByName.contains_firsts)

theorem Knows.mem_undefinedUses (h : rule.Knows doc) (hdistinct : doc.Distinct)
    (hoperation : operation ∈ doc.operations) (target : Variable) :
    target ∈ rule.undefinedUses doc operation ↔ doc.Uses operation target ∧
      ¬∃ definition ∈ operation.definedVariables,
        definition.target.name.text = target.name.text := by
  rw [undefinedUses, List.mem_filter, List.contains_iff_mem, mem_undefinedPlaces,
    h.mem_allUses hdistinct hoperation]
  constructor
  · rintro ⟨htarget, ⟨other, huse, hplace⟩, hundefined⟩
    cases hdistinct.eq_of_place (huse.mem_uses hoperation) htarget hplace
    exact ⟨huse, hundefined⟩
  · rintro ⟨huse, hundefined⟩
    exact ⟨huse.mem_uses hoperation, ⟨target, huse, rfl⟩, hundefined⟩

theorem Knows.mem_unusedDefinitions (h : rule.Knows doc) (hdistinct : doc.Distinct)
    (hoperation : operation ∈ doc.operations) (definition : VariableDefinition) :
    definition ∈ rule.unusedDefinitions operation ↔
      operation.definedVariables.find? (·.target.name.text = definition.target.name.text) =
        some definition ∧
      ¬∃ target, doc.Uses operation target ∧ target.name.text = definition.target.name.text := by
  rw [unusedDefinitions, List.mem_filter, mem_firstsBy, Bool.not_eq_true', ← Bool.not_eq_true,
    List.any_eq_true]
  simp only [h.mem_allUses hdistinct hoperation, beq_iff_eq]
  apply and_congr_right' (not_congr _)
  constructor
  · rintro ⟨_, ⟨target, huse, rfl⟩, hname⟩
    exact ⟨target, huse, hname⟩
  · rintro ⟨target, huse, hname⟩
    exact ⟨_, ⟨target, huse, rfl⟩, hname⟩

theorem Knows.misfits (h : rule.Knows doc) (hdistinct : doc.Distinct)
    (hoperation : operation ∈ doc.operations) :
    doc.Misfits operation (rule.undefinedUses doc operation) (rule.unusedDefinitions operation) where
  nodup_undefined := hdistinct.uses.of_map.filter _
  mem_undefined := h.mem_undefinedUses hdistinct hoperation
  nodup_unused := (nodup_firstsBy operation.definedVariables).sublist (List.filter_sublist.map _)
  mem_unused := h.mem_unusedDefinitions hdistinct hoperation

/-- The rule goes by places, and every place has one use. -/
theorem Knows.undefinedPlaces_perm (h : rule.Knows doc) (hdistinct : doc.Distinct)
    (hoperation : operation ∈ doc.operations) :
    (rule.undefinedPlaces operation).Perm
      ((rule.undefinedUses doc operation).map Variable.place) := by
  have hnodup : ((rule.undefinedUses doc operation).map Variable.place).Nodup := by
    apply List.Nodup.map_on
    · intro first hfirst second hsecond hplace
      exact hdistinct.eq_of_place (List.mem_of_mem_filter hfirst) (List.mem_of_mem_filter hsecond)
        hplace
    · exact (h.misfits hdistinct hoperation).nodup_undefined
  -- Neither list holds a place twice, so it is enough that they hold the same places.
  rw [List.perm_ext_iff_of_nodup (rule.nodup_undefinedPlaces operation) hnodup]
  intro place
  rw [List.mem_map, undefinedUses]
  simp only [List.mem_filter, List.contains_iff_mem]
  constructor
  · intro hplace
    obtain ⟨target, huse, rfl⟩ :=
      (h.mem_allUses hdistinct hoperation).1 (mem_undefinedPlaces.1 hplace).1
    exact ⟨target, ⟨huse.mem_uses hoperation, hplace⟩, rfl⟩
  · rintro ⟨target, ⟨-, hplace⟩, rfl⟩
    exact hplace

theorem suffix_scope (operation : Operation) : operation.scope.suffix = operation.suffix := by
  rw [OperationScope.suffix, Operation.scope, Operation.suffix]
  cases operation.name <;> rfl

/-- The findings for one operation. -/
theorem Knows.judge_perm (h : rule.Knows doc) (hdistinct : doc.Distinct)
    (hoperation : operation ∈ doc.operations) :
    (rule.judge operation.scope).Perm
      ((rule.undefinedUses doc operation).map operation.undefinedVariable ++
        (rule.unusedDefinitions operation).map operation.unusedVariable) := by
  have hundefined := (h.undefinedPlaces_perm hdistinct hoperation).map fun place =>
    Finding.mk .undefinedVariable place.2
      ("variable '$" ++ place.1 ++ "' is not defined" ++ operation.suffix)
  have hunused : (operation.scope.defined.entries.filter fun entry =>
        !(rule.allUses operation.scope.scope).any (·.1 == entry.1)) =
      (rule.unusedDefinitions operation).map fun definition =>
        (definition.target.name.text, definition.target.range) := by
    rw [Operation.scope, ByName.entries_firsts, List.filter_map]
    rfl
  rw [List.map_map] at hundefined
  rw [judge, hunused, List.map_map, suffix_scope]
  exact hundefined.append (.refl _)

/-- What the rule reports is exact about variables. -/
theorem Knows.reportsVariables (h : rule.Knows doc) (hdistinct : doc.Distinct)
    {findings : List Finding} (hperm : findings.Perm rule.leave) :
    doc.ReportsVariables findings := by
  refine ⟨hdistinct.uses, rule.undefinedUses doc, rule.unusedDefinitions,
    fun _ => h.misfits hdistinct, ?_⟩
  rw [leave, h.operations, List.flatMap_map] at hperm
  apply hperm.trans
  apply List.Perm.flatMap_left
  intro operation hoperation
  exact h.judge_perm hdistinct hoperation

end VariableUsage

namespace Validator

variable {limits checks : Limits} {source : Source} {document : Document}
  {names : List RuleName} {capacity : Nat}

/-- Findings on variables are exact.  A validation of an accepted document with room for all
findings, unless too many fields end it, reports for each operation every variable that is
used in it or in a fragment that it reaches and that it does not define, every variable, by
its first definition, that it defines and that is not used so, and nothing else. -/
theorem run_reports_variables (hparse : Document.parse limits source = .ok document)
    (hnodup : names.Nodup) (hrule : .variableUsage ∈ names)
    (hcapacity : (names.flatMap document.report).length ≤ capacity) :
    (checks.nodeCeiling? = none →
      ∃ findings, (ofRules checks names capacity).run document = .ok findings) ∧
    ∀ findings, (ofRules checks names capacity).run document = .ok findings →
      document.executable.ReportsVariables
        (findings.toList.filter (·.kind.reporter? = some .variableUsage)) := by
  refine ⟨exists_run hnodup hcapacity, fun findings hrun => ?_⟩
  obtain ⟨rule, hknows, hreport⟩ := document.report_variableUsage
  have hperm := filter_reporter_perm hrun hnodup hcapacity hrule
  rw [hreport] at hperm
  exact hknows.reportsVariables (Document.distinct_of_parse hparse) hperm

/-- A variable that is used through a fragment and not defined, and one the other way. -/
theorem run_reports_use_through_fragment :
    let source : Source :=
      ⟨[⟨none, "query Q($a: A)\x7b...F\x7d fragment F on T\x7bb(c: $d)\x7d", 0⟩], 46⟩
    let checks : Limits := { nodes := 0 }
    ∃ document capacity findings, Document.parse {} source = .ok document ∧
      document.executable.uses.map (·.name.text) = ["d"] ∧
      document.executable.operations.map
        (fun operation => operation.definedVariables.map (·.target.name.text)) = [["a"]] ∧
      (ofRules checks [.variableUsage] capacity).run document = .ok findings ∧
      document.executable.ReportsVariables
        (findings.toList.filter (·.kind.reporter? = some .variableUsage)) := by
  intro source checks
  have hmap : (Document.parse {} source).toOption.map (fun document =>
      (document.executable.uses.map (·.name.text),
        document.executable.operations.map
          fun operation => operation.definedVariables.map (·.target.name.text))) =
        some (["d"], [["a"]]) := by
    decide +kernel
  obtain ⟨document, hparse, hnames⟩ := Document.exists_parse_of_map hmap
  rw [Prod.mk.injEq] at hnames
  obtain ⟨hends, hreports⟩ := @run_reports_variables {} checks source document [.variableUsage] _
    hparse (List.nodup_singleton _) List.mem_cons_self (Nat.le_refl _)
  obtain ⟨findings, hrun⟩ := hends rfl
  exact ⟨document, _, findings, hparse, hnames.1, hnames.2, hrun, hreports findings hrun⟩

end Validator

end GuardedQuery
