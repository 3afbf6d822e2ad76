import GuardedQuery.Proofs.Validation.Sorting
import GuardedQuery.Validation.Validator

/-! # Rules do not interfere

Rules share one walk and one collector, but none sees what another finds, and no kind of
finding is reported by two of them.  So the sorted findings are those that each rule reports
alone, whatever the order of the rules.

- `FindingKind.reporter?`: the rule that reports a kind of finding.
- `Rule.reports`: what rules report along a list of visits.
- `Rule.filter_reports`: of one rule's kinds it is what that rule reports alone.
- `Validator.run_ofRules`: a run without the check on fields.
- `Validator.run_of_perm`: the order of the rules does not matter.
-/

namespace GuardedQuery

/-! ## Who reports what -/

/-- The rule that reports findings of the kind.  No rule reports the mark of dropped
findings. -/
def FindingKind.reporter? : FindingKind → Option RuleName
  | loneAnonymousOperation | duplicateOperationName => some .operationNames
  | undefinedFragment | unusedFragment | fragmentCycle => some .fragmentUsage
  | undefinedVariable | unusedVariable => some .variableUsage
  | maxValidationErrorsReached => none

def RuleName.Reports (name : RuleName) (found : List Finding) : Prop :=
  ∀ finding ∈ found, finding.kind.reporter? = some name

section reports

variable {name : RuleName} {found more : List Finding}

theorem RuleName.reports_nil : name.Reports [] :=
  fun _ hfinding => by cases hfinding

theorem RuleName.reports_singleton {finding : Finding}
    (h : finding.kind.reporter? = some name) : name.Reports [finding] := by
  intro other hother
  rw [List.mem_singleton] at hother
  rw [hother, h]

theorem RuleName.Reports.append (h : name.Reports found) (hmore : name.Reports more) :
    name.Reports (found ++ more) :=
  List.forall_mem_append.mpr ⟨h, hmore⟩

theorem RuleName.Reports.map {α : Type} {finding : α → Finding}
    (h : ∀ part, (finding part).kind.reporter? = some name) (parts : List α) :
    name.Reports (parts.map finding) := by
  intro other hother
  obtain ⟨part, -, rfl⟩ := List.mem_map.mp hother
  exact h part

end reports

theorem OperationNames.reports_visit (rule : OperationNames) (visit : Visit) :
    RuleName.operationNames.Reports (rule.visit visit).2 := by
  cases visit with
  | operation o =>
    rw [OperationNames.visit, judge]
    split
    · split
      · exact RuleName.reports_singleton rfl
      · exact RuleName.reports_nil
    · split
      · exact RuleName.reports_singleton rfl
      · exact RuleName.reports_nil
  | _ => exact RuleName.reports_nil

theorem FragmentUsage.reports_visit (rule : FragmentUsage) (visit : Visit) :
    RuleName.fragmentUsage.Reports (rule.visit visit).2 := by
  cases visit with
  | spread s =>
    change RuleName.fragmentUsage.Reports
      (if rule.defined.contains s.name.text then [] else [_])
    split
    · exact RuleName.reports_nil
    · exact RuleName.reports_singleton rfl
  | _ => exact RuleName.reports_nil

namespace SpreadGraph

variable {graph : SpreadGraph}

/-- A search finds cycles only. -/
theorem reports_follow (graph : SpreadGraph) (path : List String) (search : Search)
    (spreads : List (String × ByteRange)) (h : RuleName.fragmentUsage.Reports search.found) :
    RuleName.fragmentUsage.Reports (follow graph path search spreads).found := by
  fun_induction follow graph path search spreads with
  | case1 => exact h
  | case2 path search target range rest hcycle ih =>
    exact ih (List.forall_mem_cons.mpr ⟨rfl, h⟩)
  | case3 path search target range rest hnew hdone ih => exact ih h
  | case4 path search target range rest hnew hdone hknown ih => exact ih h
  | case5 path search target range rest hnew hdone spreads hknown inner ihinner ih =>
    exact ih (ihinner h)

theorem reports_cycles (graph : SpreadGraph) : RuleName.fragmentUsage.Reports graph.cycles := by
  have hsearch (entries : List (String × List (String × ByteRange))) (search : Search)
      (h : RuleName.fragmentUsage.Reports search.found) :
      RuleName.fragmentUsage.Reports (entries.foldl (fun (search : Search) entry =>
        if entry.1 ∈ search.done then search
        else (follow graph [entry.1] search entry.2).finish entry.1) search).found := by
    induction entries generalizing search with
    | nil => exact h
    | cons entry entries ih =>
      rw [List.foldl_cons]
      refine ih _ ?_
      by_cases hdone : entry.1 ∈ search.done
      · simpa only [if_pos hdone] using h
      · simp only [if_neg hdone]
        exact reports_follow graph [entry.1] search entry.2 h
  intro finding hfinding
  rw [cycles, List.mem_reverse] at hfinding
  exact hsearch graph.entries {} RuleName.reports_nil finding hfinding

end SpreadGraph

theorem VariableUsage.reports_leave (rule : VariableUsage) :
    RuleName.variableUsage.Reports rule.leave := by
  intro finding hfinding
  obtain ⟨operation, -, hfinding⟩ := List.mem_flatMap.mp hfinding
  have hjudge : RuleName.variableUsage.Reports (rule.judge operation) :=
    (RuleName.Reports.map (fun _ => rfl) _).append (.map (fun _ => rfl) _)
  exact hjudge finding hfinding

/-! ## Rules along visits -/

namespace Rule

def name : Rule → RuleName
  | operationNames _ => .operationNames
  | fragmentUsage _ => .fragmentUsage
  | variableUsage _ => .variableUsage

@[simp] theorem name_fresh (name : RuleName) : (fresh name).name = name := by
  cases name <;> rfl

@[simp] theorem name_visit (rule : Rule) (visit : Visit) :
    (rule.visit visit).1.name = rule.name := by
  cases rule <;> rfl

theorem reports_visit (rule : Rule) (visit : Visit) : rule.name.Reports (rule.visit visit).2 := by
  cases rule with
  | operationNames state => exact state.reports_visit visit
  | fragmentUsage state => exact state.reports_visit visit
  | variableUsage _ => exact RuleName.reports_nil

theorem reports_leave (rule : Rule) : rule.name.Reports rule.leave := by
  cases rule with
  | operationNames _ => exact RuleName.reports_nil
  | fragmentUsage state =>
    exact (RuleName.Reports.map (fun _ => rfl) _).append state.graph.reports_cycles
  | variableUsage state => exact state.reports_leave

def reports (rules : List Rule) : List Visit → List Finding
  | [] => rules.flatMap leave
  | next :: rest =>
    rules.flatMap (fun rule => (rule.visit next).2) ++
      reports (rules.map fun rule => (rule.visit next).1) rest

/-- A rule alone reports findings of its own kinds. -/
theorem reports_reports (rule : Rule) (visits : List Visit) :
    rule.name.Reports (reports [rule] visits) := by
  induction visits generalizing rule with
  | nil => simpa [reports] using rule.reports_leave
  | cons next rest ih =>
    have hrest := ih (rule.visit next).1
    rw [name_visit] at hrest
    simpa [reports] using (rule.reports_visit next).append hrest

/-- Together rules report what each of them reports alone, in some order. -/
theorem reports_perm (rules : List Rule) (visits : List Visit) :
    (reports rules visits).Perm (rules.flatMap fun rule => reports [rule] visits) := by
  induction visits generalizing rules with
  | nil => simp [reports]
  | cons next rest ih =>
    have hrest := ih (rules.map fun rule => (rule.visit next).1)
    rw [List.flatMap_map] at hrest
    have hvisit := (hrest.append_left _).trans
      (List.flatMap_append_perm rules (fun rule => (rule.visit next).2) _)
    simpa [reports] using hvisit

end Rule

theorem Finding.reporter?_of_isAt {start : Nat} {kind : FindingKind} (finding : Finding)
    (h : finding.isAt start kind) : finding.kind.reporter? = kind.reporter? := by
  rw [(isAt_iff.mp h).2]

section filters

variable {wanted : Option RuleName} {p : Finding → Bool}

/-- Findings of the kinds of one rule are reported by parts of that name only. -/
theorem RuleName.filter_flatMap {α : Type} {name : α → RuleName} {found : α → List Finding}
    (hfound : ∀ part, (name part).Reports (found part))
    (hp : ∀ finding, p finding → finding.kind.reporter? = wanted) (parts : List α) :
    (parts.flatMap found).filter p =
      ((parts.filter fun part => wanted = some (name part)).flatMap found).filter p := by
  induction parts with
  | nil => rfl
  | cons part parts ih =>
    rw [List.flatMap_cons, List.filter_append, ih]
    by_cases hpart : wanted = some (name part)
    · rw [List.filter_cons_of_pos (by simpa using hpart), List.flatMap_cons, List.filter_append]
    · have hnone : (found part).filter p = [] := by
        rw [List.filter_eq_nil_iff]
        intro finding hfinding hwanted
        exact hpart ((hp finding hwanted).symm.trans (hfound part finding hfinding))
      rw [hnone, List.filter_cons_of_neg (by simpa using hpart), List.nil_append]

/-- Of the kinds of one rule, rules report together what that rule reports without the
others, in the same order. -/
theorem Rule.filter_reports (hp : ∀ finding, p finding → finding.kind.reporter? = wanted)
    (rules : List Rule) (visits : List Visit) :
    (reports rules visits).filter p =
      (reports (rules.filter fun rule => wanted = some rule.name) visits).filter p := by
  induction visits generalizing rules with
  | nil => exact RuleName.filter_flatMap reports_leave hp rules
  | cons next rest ih =>
    have hrules : (rules.map fun rule => (rule.visit next).1).filter
          (fun rule => wanted = some rule.name) =
        (rules.filter fun rule => wanted = some rule.name).map
          fun rule => (rule.visit next).1 := by
      rw [List.filter_map]
      simp [Function.comp_def]
    rw [reports, reports, List.filter_append, List.filter_append, ih, hrules,
      RuleName.filter_flatMap (fun rule : Rule => rule.reports_visit next) hp]

/-- Of names that are all different at most one is wanted. -/
theorem RuleName.filter_eq_nil_or_singleton {names : List RuleName} (hnodup : names.Nodup)
    (wanted : Option RuleName) :
    names.filter (fun name => wanted = some name) = [] ∨
      ∃ name, names.filter (fun name => wanted = some name) = [name] := by
  have hdistinct : (names.filter fun name => wanted = some name).Nodup := hnodup.filter _
  have hwanted : ∀ name ∈ names.filter fun name => wanted = some name, wanted = some name :=
    fun name hname => of_decide_eq_true (List.mem_filter.mp hname).2
  revert hdistinct hwanted
  generalize names.filter (fun name => wanted = some name) = chosen
  intro hdistinct hwanted
  match chosen with
  | [] => exact .inl rfl
  | [name] => exact .inr ⟨name, rfl⟩
  | first :: second :: rest =>
    have hfirst := hwanted first List.mem_cons_self
    have hsecond := hwanted second (List.mem_cons_of_mem _ List.mem_cons_self)
    rw [hfirst, Option.some.injEq] at hsecond
    simp [hsecond] at hdistinct

end filters

/-! ## Collecting -/

namespace Findings

theorem pushAll_append (findings : Findings) (found more : List Finding) :
    findings.pushAll (found ++ more) = (findings.pushAll found).pushAll more :=
  List.foldl_append

/-- As long as there is room, findings are collected as they come. -/
theorem pushAll_of_room {findings : Findings} {found : List Finding}
    (h : findings.size + found.length ≤ findings.capacity) :
    findings.pushAll found =
      { findings with entries := findings.entries ++ found.toArray } := by
  induction found generalizing findings with
  | nil => simp [pushAll]
  | cons finding found ih =>
    rw [List.length_cons] at h
    have hroom : findings.size < findings.capacity := by omega
    have hpush : findings.push finding =
        { findings with entries := findings.entries.push finding } := by
      rw [push, if_pos hroom]
    have hrest : (findings.push finding).size + found.length ≤
        (findings.push finding).capacity := by
      have hsize : (findings.entries.push finding).size = findings.size + 1 := Array.size_push _
      rw [hpush]
      change (findings.entries.push finding).size + found.length ≤ findings.capacity
      omega
    have hpushed := ih hrest
    rw [pushAll] at hpushed
    rw [pushAll, List.foldl_cons, hpushed, hpush]
    simp

theorem isFull_eq_false {findings : Findings}
    (h : ∀ finding ∈ findings.toList, finding.kind ≠ .maxValidationErrorsReached) :
    findings.isFull = false := by
  rw [isFull, Option.any_eq_false]
  intro last hlast
  have hmember : last ∈ findings.entries := Array.mem_of_back? hlast
  simpa using h last (by simpa [toList] using hmember)

theorem capacity_sorted (findings : Findings) : findings.sorted.capacity = findings.capacity := rfl

theorem toList_sorted {findings : Findings} (h : findings.isFull = false) :
    findings.sorted.toList = findings.toList.mergeSort Finding.before := by
  simp [sorted, h, toList]

end Findings

/-! ## Running rules -/

namespace Validator

def ofRules (limits : Limits) (names : List RuleName) (capacity : Nat) : Validator :=
  { ofLimits limits with rules := names.map Rule.fresh, findings := { capacity } }

/-- Without the check on fields a walk collects what the rules report. -/
theorem traverse_unguarded {validator : Validator} (hguard : validator.guard = none)
    (visits : List Visit) :
    ∃ last, traverse visit validator visits = (last, none) ∧
      last.leave.findings =
        validator.findings.pushAll (Rule.reports validator.rules visits) := by
  induction visits generalizing validator with
  | nil => exact ⟨validator, rfl, rfl⟩
  | cons next rest ih =>
    have hvisit : validator.visit next = (validator.visitRules next, none) := by
      cases next <;> simp [visit, hguard]
    have hnext : (validator.visitRules next).guard = none := hguard
    obtain ⟨last, hlast, hfindings⟩ := ih hnext
    refine ⟨last, ?_, ?_⟩
    · rw [traverse, hvisit]
      exact hlast
    · rw [hfindings, Rule.reports, Findings.pushAll_append]
      simp [visitRules, List.flatMap_map, Function.comp_def]

end Validator

/-- What a rule reports of a document when it is run alone, in the order in which it reports
it. -/
def Document.report (document : Document) (name : RuleName) : List Finding :=
  Rule.reports [Rule.fresh name] document.executable.visits

namespace Validator

variable {limits : Limits} {names others : List RuleName} {capacity : Nat} {document : Document}

def collected (names : List RuleName) (document : Document) : List Finding :=
  Rule.reports (names.map Rule.fresh) document.executable.visits

theorem collected_perm (names : List RuleName) (document : Document) :
    (collected names document).Perm (names.flatMap document.report) := by
  have hperm := Rule.reports_perm (names.map Rule.fresh) document.executable.visits
  rwa [List.flatMap_map] at hperm

theorem reports_report (document : Document) (name : RuleName) :
    name.Reports (document.report name) := by
  have hreports := Rule.reports_reports (Rule.fresh name) document.executable.visits
  rwa [Rule.name_fresh] at hreports

/-- Of one place and kind, rules that are all different collect what they report alone. -/
theorem filter_collected (hnodup : names.Nodup) (document : Document) (start : Nat)
    (kind : FindingKind) :
    (collected names document).filter (Finding.isAt start kind) =
      (names.flatMap document.report).filter (Finding.isAt start kind) := by
  have hrules : (names.map Rule.fresh).filter (fun rule => kind.reporter? = some rule.name) =
      (names.filter fun name => kind.reporter? = some name).map Rule.fresh := by
    rw [List.filter_map]
    simp [Function.comp_def]
  rw [collected, Rule.filter_reports Finding.reporter?_of_isAt, hrules,
    RuleName.filter_flatMap (reports_report document) Finding.reporter?_of_isAt]
  rcases RuleName.filter_eq_nil_or_singleton hnodup kind.reporter? with hnone | ⟨name, hone⟩
  · have hnobody := (Rule.reports_perm [] document.executable.visits).eq_nil
    simp [hnone, hnobody]
  · simp [hone, Document.report]

/-- What different rules report of one place and kind does not depend on their order. -/
theorem filter_report_perm (hnodup : names.Nodup) (hperm : names.Perm others) (document : Document)
    (start : Nat) (kind : FindingKind) :
    (names.flatMap document.report).filter (Finding.isAt start kind) =
      (others.flatMap document.report).filter (Finding.isAt start kind) := by
  have hchosen : names.filter (fun name => kind.reporter? = some name) =
      others.filter fun name => kind.reporter? = some name := by
    have hfilter := hperm.filter fun name => kind.reporter? = some name
    rcases RuleName.filter_eq_nil_or_singleton hnodup kind.reporter? with hnone | ⟨name, hone⟩
    · rw [hnone] at hfilter ⊢
      exact hfilter.nil_eq
    · rw [hone] at hfilter ⊢
      exact hfilter.singleton_eq
  rw [RuleName.filter_flatMap (reports_report document) Finding.reporter?_of_isAt, hchosen,
    ← RuleName.filter_flatMap (reports_report document) Finding.reporter?_of_isAt]

/-- A run with room for all findings gives a stable sort of what the rules report alone. -/
theorem run_ofRules (hoff : limits.nodeCeiling? = none) (hnodup : names.Nodup)
    (hcapacity : (names.flatMap document.report).length ≤ capacity) :
    ∃ findings, (ofRules limits names capacity).run document = .ok findings ∧
      findings.capacity = capacity ∧
      Finding.IsStableSort findings.toList (names.flatMap document.report) := by
  have hguard : (ofRules limits names capacity).guard = none := by
    simp [ofRules, ofLimits, FieldGuard.ofLimits?, hoff]
  obtain ⟨last, hlast, hfindings⟩ := traverse_unguarded hguard document.executable.visits
  change _ = (ofRules limits names capacity).findings.pushAll (collected names document)
    at hfindings
  have hperm := collected_perm names document
  have hroom : (ofRules limits names capacity).findings.size + (collected names document).length ≤
      (ofRules limits names capacity).findings.capacity := by
    rw [hperm.length_eq]
    simpa [Findings.size, ofRules] using hcapacity
  rw [Findings.pushAll_of_room hroom] at hfindings
  have hcollected : last.leave.findings.toList = collected names document := by
    rw [hfindings]
    simp [Findings.toList, ofRules]
  have hfull : last.leave.findings.isFull = false := by
    refine Findings.isFull_eq_false fun finding hfinding hmark => ?_
    rw [hcollected] at hfinding
    obtain ⟨name, -, hfinding⟩ := List.mem_flatMap.mp (hperm.mem_iff.mp hfinding)
    have hreports := reports_report document name finding hfinding
    rw [hmark] at hreports
    cases hreports
  refine ⟨last.leave.findings.sorted, by rw [run, hlast], ?_, ?_⟩
  · rw [Findings.capacity_sorted, hfindings]
    rfl
  · rw [Findings.toList_sorted hfull, hcollected]
    exact (Finding.isStableSort_mergeSort _).congr hperm (filter_collected hnodup document)

/-- Rules do not interfere and their order does not matter.  Without the check on fields and
with room for all findings, a run gives the same findings for any order of the rules: those
that every rule gives when it is run alone, sorted by start and then by kind. -/
theorem run_of_perm (hoff : limits.nodeCeiling? = none) (hnodup : names.Nodup)
    (hperm : names.Perm others) (document : Document)
    (hcapacity : (names.flatMap document.report).length ≤ capacity) :
    ∃ (findings : Findings) (alone : RuleName → Findings),
      (ofRules limits names capacity).run document = .ok findings ∧
      (ofRules limits others capacity).run document = .ok findings ∧
      (∀ name ∈ names, (ofRules limits [name] capacity).run document = .ok (alone name) ∧
        Finding.IsStableSort (alone name).toList (document.report name)) ∧
      Finding.IsStableSort findings.toList (names.flatMap fun name => (alone name).toList) ∧
      findings.toList.Pairwise fun a b => a.range.start ≤ b.range.start := by
  obtain ⟨findings, hrun, hsize, hsorted⟩ := run_ofRules hoff hnodup hcapacity
  have hreports := hperm.flatMap_right document.report
  have hroom : (others.flatMap document.report).length ≤ capacity := by
    rwa [← hreports.length_eq]
  obtain ⟨findings', hrun', hsize', hsorted'⟩ :=
    run_ofRules hoff (hperm.nodup_iff.mp hnodup) hroom
  have hsame : findings' = findings := by
    have hlists : findings'.toList = findings.toList :=
      (hsorted'.congr hreports.symm fun start kind =>
        (filter_report_perm hnodup hperm document start kind).symm).unique hsorted
    obtain ⟨size, entries⟩ := findings
    obtain ⟨size', entries'⟩ := findings'
    rw [Findings.mk.injEq]
    exact ⟨hsize'.trans hsize.symm, Array.toList_inj.mp hlists⟩
  have halone (name : RuleName) : ∃ alone, name ∈ names →
      (ofRules limits [name] capacity).run document = .ok alone ∧
        Finding.IsStableSort alone.toList (document.report name) := by
    by_cases hname : name ∈ names
    · -- What one rule reports has room where all reports have.
      have hle : (document.report name).length ≤ (names.flatMap document.report).length :=
        (List.sublist_flatten_of_mem (List.mem_map_of_mem hname)).length_le
      have hroom : ([name].flatMap document.report).length ≤ capacity := by
        simpa using Nat.le_trans hle hcapacity
      obtain ⟨alone, hrun, -, hsorted⟩ := run_ofRules hoff (List.pairwise_singleton _ name) hroom
      exact ⟨alone, fun _ => ⟨hrun, by simpa using hsorted⟩⟩
    · exact ⟨{}, fun h => absurd h hname⟩
  choose alone halone using halone
  refine ⟨findings, alone, hrun, hsame ▸ hrun', halone, hsorted.congr ?_ ?_, ?_⟩
  · exact List.Perm.flatMap_left names fun name hname => (halone name hname).2.perm.symm
  · intro start kind
    rw [List.filter_flatMap, List.filter_flatMap]
    exact List.flatMap_congr fun name hname => ((halone name hname).2.stable start kind).symm
  · refine hsorted.ordered.imp fun {a b} hab => ?_
    rw [Finding.before_iff] at hab
    omega

/-- Two operations of one name, each with a spread of no fragment, and the two rules that
find this in both orders. -/
theorem run_of_reversed :
    let source : Source := ⟨[⟨none, "query A\x7b...F\x7d query A\x7b...G\x7d", 0⟩], 27⟩
    let limits : Limits := { nodes := 0 }
    let names : List RuleName := [.operationNames, .fragmentUsage]
    ∃ document findings, Document.parse limits source = .ok document ∧
      (ofRules limits names 3).run document = .ok findings ∧
      (ofRules limits names.reverse 3).run document = .ok findings := by
  intro source limits names
  have hcount : (Document.parse limits source).toOption.map
      (fun document => (names.flatMap document.report).length) = some 3 := by decide +kernel
  rcases hparse : Document.parse limits source with fault | document
  · rw [hparse] at hcount
    cases hcount
  · rw [hparse] at hcount
    have hoff : limits.nodeCeiling? = none := rfl
    obtain ⟨findings, -, hrun, hreversed, -⟩ := run_of_perm hoff (by decide)
      (List.reverse_perm names).symm document (Nat.le_of_eq (Option.some.inj hcount))
    exact ⟨document, findings, rfl, hrun, hreversed⟩

end Validator

end GuardedQuery
