import GuardedQuery.Proofs.Executable.Uses
import GuardedQuery.Proofs.Validation.Independence
import GuardedQuery.Proofs.Validation.Names

/-! # What the rule on fragments knows

A visit tells the rule on fragments at most one thing, so what it knows at the end of a
document can be said in advance: what operations spread and, fragment by fragment, what
definitions of that name spread.

- `Executable.spreadGraph`: the graph of a document's fragments.
- `FragmentUsage.after`: what the rule knows after some visits.
- `FragmentUsage.Knows`: it knows some definitions; `Knows.definition` is one more of them.
- `Document.report_fragmentUsage`: what the rule reports of a document.
-/

namespace GuardedQuery

def Token.place (name : Token) : String × ByteRange :=
  (name.text, name.range)

namespace Executable

variable {doc : Executable} {owner : String}

/-- What is gathered of a name comes from the definitions of that name. -/
theorem get?_gather {α : Type} (start : α) (grow : α → Fragment → α) (doc : Executable)
    (owner : String) :
    (doc.fragments.foldl (ByName.gather (·.name.text) start grow) {}).get? owner =
      if doc.Defines owner then
        some ((doc.fragments.filter (·.name.text = owner)).foldl grow start)
      else none := by
  have hany : doc.fragments.any (·.name.text = owner) = true ↔ doc.Defines owner := by
    simp [Defines]
  rw [ByName.get?_foldl_gather]
  by_cases hdefined : doc.Defines owner
  · rw [if_pos (hany.2 hdefined), if_pos hdefined]
    rfl
  · rw [if_neg (mt hany.1 hdefined), if_neg hdefined]
    rfl

def addSpreads (graph : SpreadGraph) (fragment : Fragment) : SpreadGraph :=
  graph.gather (·.name.text) [] (fun spreads f => spreads ++ f.spreads.map Token.place) fragment

def spreadGraph (doc : Executable) : SpreadGraph :=
  doc.fragments.foldl addSpreads {}

def spreadsOf (doc : Executable) (owner : String) : List (String × ByteRange) :=
  (doc.occurrences.filter (·.1 = owner)).map (·.2.place)

theorem flatMap_spreads_filter (fragments : List Fragment) (owner : String) :
    (fragments.filter (·.name.text = owner)).flatMap (·.spreads.map Token.place) =
      ((fragments.flatMap fun fragment => fragment.spreads.map (fragment.name.text, ·)).filter
        (·.1 = owner)).map (·.2.place) := by
  induction fragments with
  | nil => rfl
  | cons fragment fragments ih =>
    rw [List.flatMap_cons, List.filter_append, List.map_append, ← ih, List.filter_map,
      List.map_map]
    by_cases howner : fragment.name.text = owner
    · simp [howner, Function.comp_def]
    · simp [howner, Function.comp_def]

theorem nodup_names_spreadGraph (doc : Executable) : doc.spreadGraph.names.Nodup := by
  apply ByName.nodup_foldl_gather
  exact List.nodup_nil

theorem get?_spreadGraph (doc : Executable) (owner : String) :
    doc.spreadGraph.get? owner =
      if doc.Defines owner then some (doc.spreadsOf owner) else none := by
  rw [spreadsOf, occurrences, ← flatMap_spreads_filter, List.flatMap_eq_foldl]
  exact get?_gather [] _ doc owner

theorem mem_occurrences {occurrence : String × Token} :
    occurrence ∈ doc.occurrences ↔ ∃ fragment ∈ doc.fragments,
      fragment.name.text = occurrence.1 ∧ occurrence.2 ∈ fragment.spreads := by
  simp only [occurrences, List.mem_flatMap, List.mem_map]
  constructor
  · rintro ⟨fragment, hfragment, name, hname, rfl⟩
    exact ⟨fragment, hfragment, rfl, hname⟩
  · rintro ⟨fragment, hfragment, howner, hname⟩
    exact ⟨fragment, hfragment, occurrence.2, hname, Prod.ext howner rfl⟩

theorem mem_spreadsOf {place : String × ByteRange} :
    place ∈ doc.spreadsOf owner ↔
      ∃ occurrence ∈ doc.occurrences, occurrence.1 = owner ∧ occurrence.2.place = place := by
  simp only [spreadsOf, List.mem_map, List.mem_filter, decide_eq_true_eq, and_assoc]

/-- A name without a fragment spreads nothing. -/
theorem getD_get?_spreadGraph (doc : Executable) (owner : String) :
    (doc.spreadGraph.get? owner).getD [] = doc.spreadsOf owner := by
  rw [get?_spreadGraph]
  split
  next => rfl
  next hundefined =>
    apply (List.eq_nil_iff_forall_not_mem.2 _).symm
    intro place hplace
    obtain ⟨occurrence, hoccurrence, rfl, -⟩ := mem_spreadsOf.1 hplace
    obtain ⟨fragment, hfragment, hname, -⟩ := mem_occurrences.1 hoccurrence
    exact hundefined ⟨fragment, hfragment, hname⟩

/-- What the graph knows of a fragment is where its definitions spread others. -/
theorem exists_get?_spreadGraph {place : String × ByteRange} :
    (∃ spreads, doc.spreadGraph.get? owner = some spreads ∧ place ∈ spreads) ↔
      ∃ occurrence ∈ doc.occurrences, occurrence.1 = owner ∧ occurrence.2.place = place := by
  rw [← mem_spreadsOf, ← getD_get?_spreadGraph]
  cases doc.spreadGraph.get? owner <;> simp

/-- Without the places the graph leads along spreads. -/
theorem leads_targets_spreadGraph (doc : Executable) :
    doc.spreadGraph.targets.Leads = doc.Spreads := by
  funext owner target
  have htargets : doc.spreadGraph.targets.get? owner =
      (doc.spreadGraph.get? owner).map (List.map Prod.fst) :=
    ByName.get?_mapValues doc.spreadGraph owner
  rw [eq_iff_iff, ByName.Leads, htargets, Spreads]
  constructor
  · rintro ⟨targets, hsome, htarget⟩
    obtain ⟨spreads, hspreads, rfl⟩ := Option.map_eq_some_iff.1 hsome
    obtain ⟨place, hplace, rfl⟩ := List.mem_map.1 htarget
    obtain ⟨occurrence, hoccurrence, howner, rfl⟩ :=
      exists_get?_spreadGraph.1 ⟨spreads, hspreads, hplace⟩
    exact ⟨occurrence, hoccurrence, howner, rfl⟩
  · rintro ⟨occurrence, hoccurrence, howner, rfl⟩
    obtain ⟨spreads, hspreads, hplace⟩ :=
      exists_get?_spreadGraph.2 ⟨occurrence, hoccurrence, howner, rfl⟩
    exact ⟨_, Option.map_eq_some_iff.2 ⟨spreads, hspreads, rfl⟩, List.mem_map_of_mem hplace⟩

end Executable

/-! ## Along visits -/

namespace FragmentUsage

variable (rule : FragmentUsage) {visits : List Visit} {spreads : List Token}
  {uses : List Variable}

def after (rule : FragmentUsage) (visits : List Visit) : FragmentUsage :=
  visits.foldl (fun rule visit => (rule.visit visit).1) rule

theorem after_append (rule : FragmentUsage) (visits more : List Visit) :
    rule.after (visits ++ more) = (rule.after visits).after more :=
  List.foldl_append

def missing (defined : ByName ByteRange) (names : List Token) : List Finding :=
  (names.filter fun name => !defined.contains name.text).map fun name =>
    { kind := .undefinedFragment, range := name.range
      message := "undefined fragment '" ++ name.text ++ "'" }

/-- A visit inside a document does not change what is defined, and a finding is for a name
that it spreads. -/
theorem visit_of_ne_document {visit : Visit} (h : ∀ doc, visit ≠ .document doc) :
    (rule.visit visit).1.defined = rule.defined ∧
      (rule.visit visit).2 = missing rule.defined visit.spread?.toList := by
  cases visit with
  | document doc => exact absurd rfl (h doc)
  | spread s =>
    constructor
    · rw [FragmentUsage.visit, FragmentUsage.spread]
      cases rule.owner <;> rfl
    · rw [FragmentUsage.visit, FragmentUsage.spread, missing, Visit.spread?, Option.toList_some]
      cases hdefined : rule.defined.contains s.name.text <;> simp [hdefined]
  | _ => exact ⟨rfl, rfl⟩

/-- Inside a document the rule reports the names without a definition on the way, and the
rest at the end. -/
theorem reports_eq (h : ∀ visit ∈ visits, ∀ doc, visit ≠ .document doc) :
    Rule.reports [.fragmentUsage rule] visits =
      missing rule.defined (visits.filterMap Visit.spread?) ++ (rule.after visits).leave := by
  induction visits generalizing rule with
  | nil => simp [Rule.reports, Rule.leave, missing, after]
  | cons visit visits ih =>
    rw [List.forall_mem_cons] at h
    obtain ⟨hdefined, hfound⟩ := visit_of_ne_document rule h.1
    have hrest := ih (rule.visit visit).1 h.2
    rw [hdefined] at hrest
    have hsplit : missing rule.defined ((visit :: visits).filterMap Visit.spread?) =
        missing rule.defined visit.spread?.toList ++
          missing rule.defined (visits.filterMap Visit.spread?) := by
      rw [missing, missing, missing, ← List.map_append, ← List.filter_append]
      cases hspread : visit.spread? <;> simp [hspread]
    rw [hsplit, List.append_assoc, ← hfound]
    simpa [Rule.reports, Rule.visit, after] using hrest

/-- Of inner parts only spreads are taken note of. -/
theorem after_of_isInner (h : ∀ visit ∈ visits, visit.isInner) :
    rule.after visits =
      (visits.filterMap Visit.spread?).foldl (fun rule name => (rule.spread name).1) rule := by
  induction visits generalizing rule with
  | nil => rfl
  | cons visit visits ih =>
    rw [List.forall_mem_cons] at h
    have hrest := ih (rule.visit visit).1 h.2
    cases visit with
    | document _ | operation _ | fragment _ | variableDefinition _ => cases h.1
    | _ => exact hrest

theorem foldl_spread_operation (rule : FragmentUsage) (names : List Token)
    (h : rule.owner = .operation) :
    names.foldl (fun rule name => (rule.spread name).1) rule =
      { rule with fromOperations := (names.map (·.text)).reverse ++ rule.fromOperations } := by
  induction names generalizing rule with
  | nil => rfl
  | cons name names ih =>
    have hnoted : (rule.spread name).1 =
        { rule with fromOperations := name.text :: rule.fromOperations } := by
      rw [FragmentUsage.spread, h]
    have hrest := ih (rule.spread name).1 (by rw [hnoted]; exact h)
    rw [List.foldl_cons, hrest, hnoted]
    simp

theorem foldl_spread_fragment (rule : FragmentUsage) (names : List Token) {owner : String}
    (h : rule.owner = .fragment owner) :
    names.foldl (fun rule name => (rule.spread name).1) rule =
      { rule with graph := rule.graph.update owner (· ++ names.map Token.place) } := by
  induction names generalizing rule with
  | nil =>
    have hsame : rule.graph.update owner (· ++ [].map Token.place) = rule.graph := by
      simp [ByName.update]
    rw [hsame]
    rfl
  | cons name names ih =>
    have hnoted : (rule.spread name).1 =
        { rule with graph := rule.graph.update owner (· ++ [name.place]) } := by
      rw [FragmentUsage.spread, h]
      rfl
    have htwice : (rule.graph.update owner (· ++ [name.place])).update owner
          (· ++ names.map Token.place) =
        rule.graph.update owner (· ++ (name :: names).map Token.place) := by
      simp [ByName.update_update, Function.comp_def]
    have hrest := ih (rule.spread name).1 (by rw [hnoted]; exact h)
    rw [List.foldl_cons, hrest, hnoted, htwice]

/-! ## Along definitions -/

structure Learned (before later : FragmentUsage) (doc : Executable) : Prop where
  defined : later.defined = before.defined
  fromOperations : later.fromOperations =
    ((doc.operations.flatMap Operation.spreads).map (·.text)).reverse ++ before.fromOperations
  graph : later.graph = doc.fragments.foldl Executable.addSpreads before.graph

theorem after_operation (rule : FragmentUsage) (o : Operation) :
    rule.after o.visits =
      { rule with
        owner := .operation
        fromOperations := (o.spreads.map (·.text)).reverse ++ rule.fromOperations } := by
  have hbody := SelectionSet.shows_body o.directives o.set
  have hdefined : ∀ (rule : FragmentUsage) (definitions : List VariableDefinition),
      rule.after (definitions.map .variableDefinition) = rule := by
    intro rule definitions
    induction definitions with
    | nil => rfl
    | cons definition definitions ih => exact ih
  rw [Operation.visits, ← List.singleton_append, after_append, after_append, hdefined,
    after_of_isInner _ hbody.inner, hbody.spreads_eq, foldl_spread_operation _ _ rfl]
  rfl

theorem after_fragment (rule : FragmentUsage) (f : Fragment) :
    rule.after f.visits =
      { rule with
        owner := .fragment f.name.text
        graph := Executable.addSpreads rule.graph f } := by
  have hbody := SelectionSet.shows_body f.directives f.set
  rw [Fragment.visits, ← List.singleton_append, after_append, after_of_isInner _ hbody.inner,
    hbody.spreads_eq, foldl_spread_fragment _ _ rfl]
  rfl

/-- Visiting definitions, the rule learns what they spread. -/
theorem learned_definitions (rule : FragmentUsage) (range : ByteRange)
    (definitions : List Definition) :
    Learned rule (rule.after (definitions.flatMap Definition.visits)) ⟨range, definitions⟩ := by
  induction definitions generalizing rule with
  | nil => exact ⟨rfl, rfl, rfl⟩
  | cons definition definitions ih =>
    rw [List.flatMap_cons, after_append]
    have hrest := ih (rule.after definition.visits)
    cases definition with
    | operation o =>
      rw [Definition.visits, after_operation] at hrest ⊢
      exact ⟨hrest.defined, by simpa using hrest.fromOperations, by simpa using hrest.graph⟩
    | fragment f =>
      rw [Definition.visits, after_fragment] at hrest ⊢
      exact ⟨hrest.defined, by simpa using hrest.fromOperations, by simpa using hrest.graph⟩

end FragmentUsage

theorem Definition.ne_document_of_mem_visits {definition : Definition} {visit : Visit}
    (h : visit ∈ definition.visits) (doc : Executable) : visit ≠ .document doc := by
  have hinner (directives : Option (List Directive)) (set : SelectionSet) :
      Visit.document doc ∉ Directive.allVisits directives ++ set.visits := by
    intro hmem
    cases (SelectionSet.shows_body directives set).inner _ hmem
  rintro rfl
  cases definition with
  | operation o =>
    simp only [visits, Operation.visits, List.mem_cons, reduceCtorEq, false_or,
      List.mem_append (s := List.map _ _), List.mem_map, and_false, exists_false] at h
    exact hinner _ _ h
  | fragment f =>
    rw [visits, Fragment.visits, List.mem_cons] at h
    rcases h with h | h
    · cases h
    · exact hinner _ _ h

structure FragmentUsage.Knows (rule : FragmentUsage) (doc : Executable) : Prop where
  defined : rule.defined = .firsts (·.name.text) (·.name.range) doc.fragments
  fromOperations : rule.fromOperations.reverse =
    (doc.operations.flatMap Operation.spreads).map (·.text)
  graph : rule.graph = doc.spreadGraph

/-- On the way the rule reports the spreads of undefined fragments, and at the end what it
finds knowing the whole document. -/
theorem Document.report_fragmentUsage (document : Document) :
    ∃ rule : FragmentUsage, rule.Knows document.executable ∧
      document.report .fragmentUsage =
        FragmentUsage.missing rule.defined document.executable.spreads ++ rule.leave := by
  rw [Document.report]
  generalize document.executable = doc
  let rule := ({} : FragmentUsage).define doc
  have hinner : ∀ visit ∈ doc.definitions.flatMap Definition.visits, ∀ doc,
      visit ≠ .document doc := by
    intro visit hvisit
    obtain ⟨definition, -, hvisit⟩ := List.mem_flatMap.1 hvisit
    exact Definition.ne_document_of_mem_visits hvisit
  have hspreads : (doc.definitions.flatMap Definition.visits).filterMap Visit.spread? =
      doc.spreads := by
    rw [List.filterMap_flatMap]
    exact List.flatMap_congr fun definition _ => definition.spreads_visits
  have hlearned := rule.learned_definitions doc.range doc.definitions
  refine ⟨rule.after (doc.definitions.flatMap Definition.visits),
    ⟨hlearned.defined, ?_, hlearned.graph⟩, ?_⟩
  · rw [hlearned.fromOperations, List.reverse_append, List.reverse_reverse]
    rfl
  · have hreports := rule.reports_eq hinner
    rw [doc.visits_eq, hlearned.defined, ← hspreads, ← hreports]
    rfl

end GuardedQuery
