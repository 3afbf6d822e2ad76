import GuardedQuery.Proofs.Executable.Places
import GuardedQuery.Proofs.Validation.Collecting
import GuardedQuery.Proofs.Validation.CycleSearch
import GuardedQuery.Proofs.Validation.Spreads

/-! # What the rule on fragments finds

The findings on fragments against the document itself: which spreads name no fragment, which
fragments no operation reaches, and which spreads close a cycle.

- `Executable.ReportsFragments`: findings that are exact about spreads and fragments.
- `Executable.ReportsCycles`: findings that break every cycle and nothing else.
- `Validator.run_reports_fragments`, `Validator.run_reports_cycles`: a validation gives these.
-/

namespace GuardedQuery

namespace Executable

/-- There is one finding for every spread of a name without a fragment, and one for every
fragment that comes first with its name and that no operation reaches. -/
structure ReportsFragments (doc : Executable) (findings : List Finding) : Prop where
  distinct : (doc.spreads.map Token.range).Nodup
  undefined : (findings.filter (·.kind = .undefinedFragment)).Perm
    ((doc.spreads.filter fun spread => ¬doc.Defines spread.text).map fun spread =>
      ⟨.undefinedFragment, spread.range, "undefined fragment '" ++ spread.text ++ "'"⟩)
  unused : ∃ fragments : List Fragment,
    (fragments.map (·.name.text)).Nodup ∧
    (∀ fragment, fragment ∈ fragments ↔
      doc.fragments.find? (·.name.text = fragment.name.text) = some fragment ∧
        ¬∃ operation ∈ doc.operations, doc.Reaches operation fragment.name.text) ∧
    (findings.filter (·.kind = .unusedFragment)).Perm (fragments.map fun fragment =>
      ⟨.unusedFragment, fragment.name.range,
        "fragment '" ++ fragment.name.text ++ "' is never used"⟩)

structure ReportsCycles (doc : Executable) (findings : List Finding) : Prop where
  distinct : (doc.occurrences.map (·.2.range)).Nodup
  none_iff : findings = [] ↔ ∀ name, ¬Relation.TransGen doc.Spreads name name
  /-- A finding is at a spread of `occurrence.2` in a fragment `occurrence.1` and spells the
  way from the one back to the other. -/
  closes : ∀ finding ∈ findings, ∃ occurrence ∈ doc.occurrences, ∃ via : List String,
    finding.range = occurrence.2.range ∧
    finding.message = "cannot spread fragment '" ++ occurrence.2.text ++ "' within itself" ++
      (if via.isEmpty then "" else
        " via " ++ String.intercalate ", " (via.map fun name => "'" ++ name ++ "'")) ∧
    (occurrence.2.text :: via).IsChain doc.Spreads ∧
    (occurrence.2.text :: via).getLast? = some occurrence.1 ∧
    (via = [] ↔ occurrence.1 = occurrence.2.text)
  acyclic : ∀ name, ¬Relation.TransGen (fun owner target => ∃ occurrence ∈ doc.occurrences,
    occurrence.1 = owner ∧ occurrence.2.text = target ∧
      ∀ finding ∈ findings, finding.range ≠ occurrence.2.range) name name
  once : (findings.map (·.range)).Nodup

end Executable

/-! ## What the rule reports -/

namespace FragmentUsage

variable {rule : FragmentUsage} {doc : Executable}

theorem kind_of_mem_missing {defined : ByName ByteRange} {spreads : List Token} :
    ∀ finding ∈ missing defined spreads, finding.kind = .undefinedFragment := by
  intro finding hfinding
  obtain ⟨name, -, rfl⟩ := List.mem_map.1 hfinding
  rfl

theorem kind_of_mem_unused : ∀ finding ∈ rule.unused, finding.kind = .unusedFragment := by
  intro finding hfinding
  obtain ⟨entry, -, rfl⟩ := List.mem_map.1 hfinding
  rfl

theorem Knows.kind_of_mem_cycles (h : rule.Knows doc) :
    ∀ finding ∈ rule.graph.cycles, finding.kind = .fragmentCycle := by
  rw [h.graph]
  intro finding hfinding
  obtain ⟨_, _, _, _, -, -, -, -, rfl⟩ :=
    SpreadGraph.closes_of_mem_cycles doc.nodup_names_spreadGraph finding hfinding
  rfl

/-- The findings of each kind among all that the rule reports. -/
theorem Knows.filter_kind (h : rule.Knows doc) (spreads : List Token) (kind : FindingKind) :
    (missing rule.defined spreads ++ rule.leave).filter (·.kind = kind) =
      (if kind = .undefinedFragment then missing rule.defined spreads else []) ++
        ((if kind = .unusedFragment then rule.unused else []) ++
          if kind = .fragmentCycle then rule.graph.cycles else []) := by
  rw [leave, List.filter_append, List.filter_append, Finding.filter_kind kind_of_mem_missing,
    Finding.filter_kind kind_of_mem_unused, Finding.filter_kind h.kind_of_mem_cycles]

theorem Knows.contains_defined (h : rule.Knows doc) (name : String) :
    rule.defined.contains name = true ↔ doc.Defines name := by
  rw [h.defined]
  exact ByName.contains_firsts

/-- The rule reports the spreads of names that have no fragment. -/
theorem Knows.missing_eq (h : rule.Knows doc) (spreads : List Token) :
    missing rule.defined spreads =
      (spreads.filter fun spread => ¬doc.Defines spread.text).map fun spread =>
        ⟨.undefinedFragment, spread.range, "undefined fragment '" ++ spread.text ++ "'"⟩ := by
  rw [missing]
  congr 1
  apply List.filter_congr
  intro spread _
  have hcontains := h.contains_defined spread.text
  cases hdefined : rule.defined.contains spread.text <;> simp_all

theorem Knows.mem_reached (h : rule.Knows doc) (name : String) :
    name ∈ rule.graph.targets.reach rule.fromOperations.reverse ↔
      ∃ operation ∈ doc.operations, doc.Reaches operation name := by
  rw [ByName.mem_reach, h.graph, doc.leads_targets_spreadGraph, h.fromOperations]
  simp only [List.mem_map, List.mem_flatMap, Executable.Reaches]
  constructor
  · rintro ⟨_, ⟨spread, ⟨operation, hoperation, hspread⟩, rfl⟩, hpath⟩
    exact ⟨operation, hoperation, spread, hspread, hpath⟩
  · rintro ⟨operation, hoperation, spread, hspread, hpath⟩
    exact ⟨_, ⟨spread, ⟨operation, hoperation, hspread⟩, rfl⟩, hpath⟩

def unreached (rule : FragmentUsage) (doc : Executable) : List Fragment :=
  (firstsBy (·.name.text) doc.fragments).filter fun fragment =>
    !(rule.graph.targets.reach rule.fromOperations.reverse).contains fragment.name.text

theorem Knows.unused_eq (h : rule.Knows doc) :
    rule.unused = (rule.unreached doc).map fun fragment =>
      ⟨.unusedFragment, fragment.name.range,
        "fragment '" ++ fragment.name.text ++ "' is never used"⟩ := by
  rw [unused, h.defined, ByName.entries_firsts, List.filter_map, List.map_map]
  rfl

theorem Knows.mem_unreached (h : rule.Knows doc) (fragment : Fragment) :
    fragment ∈ rule.unreached doc ↔
      doc.fragments.find? (·.name.text = fragment.name.text) = some fragment ∧
        ¬∃ operation ∈ doc.operations, doc.Reaches operation fragment.name.text := by
  rw [unreached, List.mem_filter, mem_firstsBy, Bool.not_eq_true', ← Bool.not_eq_true,
    List.contains_iff_mem, h.mem_reached]

theorem nodup_unreached (rule : FragmentUsage) (doc : Executable) :
    ((rule.unreached doc).map (·.name.text)).Nodup :=
  (nodup_firstsBy doc.fragments).sublist (List.filter_sublist.map _)

/-- What the rule reports is exact about spreads and fragments. -/
theorem Knows.reportsFragments (h : rule.Knows doc) (hdistinct : doc.Distinct)
    {findings : List Finding}
    (hperm : ∀ kind : FindingKind, kind.reporter? = some .fragmentUsage →
      (findings.filter (·.kind = kind)).Perm
        ((missing rule.defined doc.spreads ++ rule.leave).filter (·.kind = kind))) :
    doc.ReportsFragments findings := by
  have hundefined := hperm .undefinedFragment rfl
  have hunused := hperm .unusedFragment rfl
  rw [h.filter_kind] at hundefined hunused
  refine ⟨hdistinct.spreads, ?_, rule.unreached doc, rule.nodup_unreached doc, h.mem_unreached, ?_⟩
  · rw [← h.missing_eq]
    simpa using hundefined
  · rw [← h.unused_eq]
    simpa using hunused

end FragmentUsage

/-! ## Cycles -/

namespace Executable

variable {doc : Executable}

/-- The spreads of the graph are those of the fragments. -/
theorem spread_spreadGraph {owner target : String} {range : ByteRange} :
    doc.spreadGraph.Spread owner target range ↔ ∃ occurrence ∈ doc.occurrences,
      occurrence.1 = owner ∧ occurrence.2.text = target ∧ occurrence.2.range = range := by
  have hplace (name : Token) :
      name.place = (target, range) ↔ name.text = target ∧ name.range = range := by
    rw [Token.place, Prod.mk.injEq]
  rw [SpreadGraph.Spread, exists_get?_spreadGraph]
  simp only [hplace]

theorem leads_spreadGraph (doc : Executable) : doc.spreadGraph.Leads = doc.Spreads := by
  funext owner target
  rw [eq_iff_iff, SpreadGraph.Leads, Spreads]
  simp only [spread_spreadGraph]
  constructor
  · rintro ⟨_, occurrence, hoccurrence, howner, htarget, -⟩
    exact ⟨occurrence, hoccurrence, howner, htarget⟩
  · rintro ⟨occurrence, hoccurrence, howner, htarget⟩
    exact ⟨_, occurrence, hoccurrence, howner, htarget, rfl⟩

/-- Different fragments spread others at different places, and one fragment does not spread
two at one place. -/
theorem Distinct.nodup_places (h : doc.Distinct) {names : List String} (hnames : names.Nodup) :
    (doc.spreadGraph.places names).Nodup := by
  have hranges (owner : String) : (doc.spreadsOf owner).map (·.2) =
      (doc.occurrences.filter (·.1 = owner)).map (·.2.range) := by
    rw [spreadsOf, List.map_map]
    rfl
  simp only [SpreadGraph.places, getD_get?_spreadGraph, hranges]
  rw [List.nodup_flatMap]
  constructor
  · intro owner _
    exact h.occurrences.sublist (List.filter_sublist.map _)
  · apply hnames.imp
    intro owner other hne range hrange hother
    obtain ⟨first, hfirst, rfl⟩ := List.mem_map.1 hrange
    obtain ⟨second, hsecond, hsame⟩ := List.mem_map.1 hother
    rw [List.mem_filter, decide_eq_true_eq] at hfirst hsecond
    have hequal := List.inj_on_of_nodup_map h.occurrences hsecond.1 hfirst.1 hsame
    exact hne (by rw [← hfirst.2, ← hsecond.2, hequal])

/-- The cycles of the graph, in any order. -/
theorem Distinct.reportsCycles (h : doc.Distinct) {findings : List Finding}
    (hperm : findings.Perm doc.spreadGraph.cycles) : doc.ReportsCycles findings := by
  have hnodup := doc.nodup_names_spreadGraph
  constructor
  · exact h.occurrences
  · rw [← leads_spreadGraph, ← SpreadGraph.cycles_eq_nil_iff hnodup]
    constructor
    · rintro rfl
      exact hperm.nil_eq.symm
    · intro hnil
      rw [hnil] at hperm
      exact hperm.eq_nil
  · intro finding hfinding
    obtain ⟨owner, target, range, via, hspread, hchain, hlast, hself, rfl⟩ :=
      SpreadGraph.closes_of_mem_cycles hnodup finding (hperm.mem_iff.1 hfinding)
    rw [leads_spreadGraph] at hchain
    obtain ⟨occurrence, hoccurrence, rfl, rfl, rfl⟩ := spread_spreadGraph.1 hspread
    exact ⟨occurrence, hoccurrence, via, rfl, rfl, hchain, hlast, hself⟩
  · intro name hcycle
    apply SpreadGraph.acyclic_of_cycles hnodup name
    refine Relation.TransGen.mono ?_ name name hcycle
    rintro owner target ⟨occurrence, hoccurrence, howner, htarget, hreported⟩
    refine ⟨occurrence.2.range, spread_spreadGraph.2 ⟨occurrence, hoccurrence, howner, htarget, rfl⟩,
      ?_⟩
    rintro ⟨finding, hfinding, hrange⟩
    exact hreported finding (hperm.mem_iff.2 hfinding) hrange
  · have hcycles := SpreadGraph.nodup_cycles hnodup fun names hnames => h.nodup_places hnames
    exact (hperm.map _).nodup_iff.2 hcycles

end Executable

/-! ## Validations -/

namespace Validator

variable {limits checks : Limits} {source : Source} {document : Document}
  {names : List RuleName} {capacity : Nat}

/-- Findings on fragments are exact.  A validation of an accepted document with room for all
findings, unless too many fields end it, reports every spread of a name that no fragment has
and every fragment, by its first definition, that no operation reaches, and nothing else of
these kinds. -/
theorem run_reports_fragments (hparse : Document.parse limits source = .ok document)
    (hnodup : names.Nodup) (hrule : .fragmentUsage ∈ names)
    (hcapacity : (names.flatMap document.report).length ≤ capacity) :
    (checks.nodeCeiling? = none →
      ∃ findings, (ofRules checks names capacity).run document = .ok findings) ∧
    ∀ findings, (ofRules checks names capacity).run document = .ok findings →
      document.executable.ReportsFragments findings.toList := by
  refine ⟨exists_run hnodup hcapacity, fun findings hrun => ?_⟩
  obtain ⟨rule, hknows, hreport⟩ := document.report_fragmentUsage
  apply hknows.reportsFragments (Document.distinct_of_parse hparse)
  intro kind hkind
  rw [← hreport]
  exact filter_kind_perm hrun hnodup hcapacity hrule hkind

/-- A spread of no fragment and a fragment that nothing spreads. -/
theorem run_reports_missing_and_unused :
    let source : Source := ⟨[⟨none, "\x7b...G\x7d fragment F on T\x7ba\x7d", 0⟩], 25⟩
    let checks : Limits := { nodes := 0 }
    ∃ document capacity findings, Document.parse {} source = .ok document ∧
      document.executable.spreads.map (·.text) = ["G"] ∧
      document.executable.fragments.map (·.name.text) = ["F"] ∧
      (ofRules checks [.fragmentUsage] capacity).run document = .ok findings ∧
      document.executable.ReportsFragments findings.toList := by
  intro source checks
  have hmap : (Document.parse {} source).toOption.map (fun document =>
      (document.executable.spreads.map (·.text), document.executable.fragments.map (·.name.text))) =
        some (["G"], ["F"]) := by
    decide +kernel
  obtain ⟨document, hparse, hnames⟩ := Document.exists_parse_of_map hmap
  rw [Prod.mk.injEq] at hnames
  obtain ⟨hends, hreports⟩ := @run_reports_fragments {} checks source document [.fragmentUsage] _
    hparse (List.nodup_singleton _) List.mem_cons_self (Nat.le_refl _)
  obtain ⟨findings, hrun⟩ := hends rfl
  exact ⟨document, _, findings, hparse, hnames.1, hnames.2, hrun, hreports findings hrun⟩

/-- Findings on cycles are exact.  A validation of an accepted document with room for all
findings, unless too many fields end it, reports spreads of fragments that close a cycle.
Without them no fragment spreads itself, and none of them is reported twice. -/
theorem run_reports_cycles (hparse : Document.parse limits source = .ok document)
    (hnodup : names.Nodup) (hrule : .fragmentUsage ∈ names)
    (hcapacity : (names.flatMap document.report).length ≤ capacity) :
    (checks.nodeCeiling? = none →
      ∃ findings, (ofRules checks names capacity).run document = .ok findings) ∧
    ∀ findings, (ofRules checks names capacity).run document = .ok findings →
      document.executable.ReportsCycles
        (findings.toList.filter (·.kind = .fragmentCycle)) := by
  refine ⟨exists_run hnodup hcapacity, fun findings hrun => ?_⟩
  obtain ⟨rule, hknows, hreport⟩ := document.report_fragmentUsage
  have hkind : FindingKind.fragmentCycle.reporter? = some .fragmentUsage := rfl
  have hperm := filter_kind_perm hrun hnodup hcapacity hrule hkind
  rw [hreport, hknows.filter_kind, hknows.graph] at hperm
  exact (Document.distinct_of_parse hparse).reportsCycles (by simpa using hperm)

/-- Two fragments that spread each other, and no operation. -/
theorem run_reports_cycle_of_two :
    let source : Source :=
      ⟨[⟨none, "fragment A on T\x7b...B\x7d fragment B on T\x7b...A\x7d", 0⟩], 43⟩
    let checks : Limits := { nodes := 0 }
    ∃ document capacity findings, Document.parse {} source = .ok document ∧
      document.executable.occurrences.map (fun spread => (spread.1, spread.2.text)) =
        [("A", "B"), ("B", "A")] ∧
      (ofRules checks [.fragmentUsage] capacity).run document = .ok findings ∧
      document.executable.ReportsCycles
        (findings.toList.filter (·.kind = .fragmentCycle)) := by
  intro source checks
  have hmap : (Document.parse {} source).toOption.map (fun document =>
      document.executable.occurrences.map fun spread => (spread.1, spread.2.text)) =
        some [("A", "B"), ("B", "A")] := by
    decide +kernel
  obtain ⟨document, hparse, hspreads⟩ := Document.exists_parse_of_map hmap
  obtain ⟨hends, hreports⟩ := @run_reports_cycles {} checks source document [.fragmentUsage] _
    hparse (List.nodup_singleton _) List.mem_cons_self (Nat.le_refl _)
  obtain ⟨findings, hrun⟩ := hends rfl
  exact ⟨document, _, findings, hparse, hspreads, hrun, hreports findings hrun⟩

end Validator

end GuardedQuery
