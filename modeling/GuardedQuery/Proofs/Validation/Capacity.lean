import GuardedQuery.Proofs.Validation.Independence

/-! # The capacity for findings

A collector keeps no word for being full.  It reads this off the kind of its last finding,
which sorting takes away and puts back, and whether a finding has room is told by how many
there are, with or without the mark.  What a collector holds is nevertheless known from its
capacity and what was pushed.

- `Findings.Action`: what is done to a collector.
- `Findings.Collected`: what a collector holds of what was pushed.
- `Findings.Collected.push`, `Findings.Collected.sorted`: one action.
- `Findings.after_collects`: any actions in any order.
- `Validator.run_collects`: a validation with room for some findings only.
-/

namespace GuardedQuery

def Finding.mark (finding : Finding) : Finding :=
  { kind := .maxValidationErrorsReached, range := finding.range }

namespace Findings

/-! ## Actions -/

inductive Action where
  | push (finding : Finding)
  | sort

def Action.pushed? : Action → Option Finding
  | push finding => some finding
  | sort => none

def perform (findings : Findings) : Action → Findings
  | .push finding => findings.push finding
  | .sort => findings.sorted

def after (findings : Findings) (actions : List Action) : Findings :=
  actions.foldl perform findings

/-! ## The mark -/

variable {findings : Findings} {ordinary pushed : List Finding}

/-- The mark of the first finding that has no room, if there is one. -/
def markOf (capacity : Nat) (pushed : List Finding) : List Finding :=
  (pushed[capacity]?.map Finding.mark).toList

theorem markOf_of_le {capacity : Nat} (h : pushed.length ≤ capacity) :
    markOf capacity pushed = [] := by
  simp [markOf, List.getElem?_eq_none h]

theorem markOf_of_lt {capacity : Nat} (h : capacity < pushed.length) :
    markOf capacity pushed = [pushed[capacity].mark] := by
  simp [markOf, List.getElem?_eq_getElem h]

theorem markOf_append {capacity : Nat} (h : capacity < pushed.length) (more : List Finding) :
    markOf capacity (pushed ++ more) = markOf capacity pushed := by
  rw [markOf, markOf, List.getElem?_append_left h]

theorem isFull_eq_getLast? (findings : Findings) :
    findings.isFull = findings.toList.getLast?.any (·.kind = .maxValidationErrorsReached) := by
  rw [isFull, toList, Array.getLast?_toList]

/-- Sorting leaves the mark where it is. -/
theorem toList_sorted_of_isFull {mark : Finding} (hfull : findings.isFull)
    (h : findings.toList = ordinary ++ [mark]) :
    findings.sorted.toList = ordinary.mergeSort Finding.before ++ [mark] := by
  have hordinary : findings.entries.pop.toList = ordinary := by
    rw [Array.toList_pop, ← toList, h, List.dropLast_concat]
  have hmark : findings.entries.back? = some mark := by
    rw [← Array.getLast?_toList, ← toList, h, List.getLast?_concat]
  simp [sorted, hfull, hmark, toList, ← hordinary]

/-! ## What is held -/

/-- The collector holds as much of what was pushed as there is room for, in some order, and
behind it the mark of the first finding that was dropped.  Nothing that was pushed looks like
a mark. -/
structure Collected (capacity : Nat) (findings : Findings) (ordinary pushed : List Finding) :
    Prop where
  capacity_eq : findings.capacity = capacity
  toList_eq : findings.toList = ordinary ++ markOf capacity pushed
  perm : ordinary.Perm (pushed.take capacity)
  kinds : ∀ finding ∈ pushed, finding.kind ≠ .maxValidationErrorsReached

namespace Collected

variable {capacity : Nat} {finding : Finding}

theorem size_eq (h : Collected capacity findings ordinary pushed) :
    findings.size = min capacity pushed.length + if capacity < pushed.length then 1 else 0 := by
  have hsize : findings.size = findings.toList.length := Array.length_toList.symm
  rw [hsize, h.toList_eq, List.length_append, h.perm.length_eq, List.length_take]
  split
  next hmore => rw [markOf_of_lt hmore, List.length_singleton]
  next hmore => rw [markOf_of_le (Nat.le_of_not_lt hmore), List.length_nil]

/-- A finding is put behind all others exactly if there is room. -/
theorem size_lt_iff (h : Collected capacity findings ordinary pushed) :
    findings.size < findings.capacity ↔ pushed.length < capacity := by
  rw [h.size_eq, h.capacity_eq]
  split <;> omega

/-- Whether the collector is full is told by how many findings were pushed. -/
theorem isFull_iff (h : Collected capacity findings ordinary pushed) :
    findings.isFull ↔ capacity < pushed.length := by
  rw [isFull_eq_getLast?, h.toList_eq]
  by_cases hmore : capacity < pushed.length
  · simp [markOf_of_lt hmore, Finding.mark, hmore]
  · rw [markOf_of_le (Nat.le_of_not_lt hmore), List.append_nil]
    refine iff_of_false (fun hmark => ?_) hmore
    obtain ⟨last, hlast, hkind⟩ := (Option.any_eq_true _ _).1 hmark
    have hmem := h.perm.mem_iff.1 (List.mem_of_getLast? hlast)
    exact h.kinds last (List.mem_of_mem_take hmem) (of_decide_eq_true hkind)

theorem kinds_concat (h : Collected capacity findings ordinary pushed)
    (hkind : finding.kind ≠ .maxValidationErrorsReached) :
    ∀ other ∈ pushed ++ [finding], other.kind ≠ .maxValidationErrorsReached :=
  List.forall_mem_append.2 ⟨h.kinds, List.forall_mem_singleton.2 hkind⟩

/-! ## One action -/

/-- A finding for which there is room. -/
theorem push_of_lt (h : Collected capacity findings ordinary pushed)
    (hkind : finding.kind ≠ .maxValidationErrorsReached) (hroom : pushed.length < capacity) :
    Collected capacity (findings.push finding) (ordinary ++ [finding]) (pushed ++ [finding]) := by
  have hpush : findings.push finding =
      { findings with entries := findings.entries.push finding } := by
    rw [Findings.push, if_pos (h.size_lt_iff.2 hroom)]
  have hlength : (pushed ++ [finding]).length ≤ capacity := by
    rw [List.length_append]
    exact hroom
  have hkinds := h.kinds_concat hkind
  obtain ⟨hcapacity, hlist, hperm, -⟩ := h
  rw [markOf_of_le (Nat.le_of_lt hroom), List.append_nil] at hlist
  rw [List.take_of_length_le (Nat.le_of_lt hroom)] at hperm
  rw [hpush]
  refine ⟨hcapacity, ?_, ?_, hkinds⟩
  · rw [markOf_of_le hlength, List.append_nil, ← hlist]
    exact Array.toList_push
  · rw [List.take_of_length_le hlength]
    exact hperm.append_right [finding]

/-- The first finding that is dropped. -/
theorem push_of_eq (h : Collected capacity findings ordinary pushed)
    (hkind : finding.kind ≠ .maxValidationErrorsReached) (hlast : pushed.length = capacity) :
    Collected capacity (findings.push finding) ordinary (pushed ++ [finding]) := by
  have hopen : findings.isFull = false := by
    rw [← Bool.not_eq_true, h.isFull_iff, hlast]
    exact Nat.lt_irrefl capacity
  have hpush : findings.push finding =
      { findings with entries := findings.entries.push finding.mark } := by
    have hroom : ¬ findings.size < findings.capacity := by
      rw [h.size_lt_iff, hlast]
      exact Nat.lt_irrefl capacity
    rw [Findings.push, if_neg hroom, hopen]
    rfl
  have hmark : markOf capacity (pushed ++ [finding]) = [finding.mark] := by
    simp [markOf, ← hlast]
  have hkinds := h.kinds_concat hkind
  obtain ⟨hcapacity, hlist, hperm, -⟩ := h
  rw [markOf_of_le (Nat.le_of_eq hlast), List.append_nil] at hlist
  rw [hpush]
  refine ⟨hcapacity, ?_, ?_, hkinds⟩
  · rw [hmark, ← hlist]
    exact Array.toList_push
  · rwa [List.take_append_of_le_length (Nat.le_of_eq hlast.symm)]

/-- A full collector takes nothing. -/
theorem push_eq_self (h : Collected capacity findings ordinary pushed) (hfull : findings.isFull)
    (finding : Finding) : findings.push finding = findings := by
  have hroom : ¬ findings.size < findings.capacity := by
    rw [h.size_lt_iff]
    exact Nat.lt_asymm (h.isFull_iff.1 hfull)
  rw [Findings.push, if_neg hroom, if_pos hfull]

/-- A finding is pushed. -/
theorem push (h : Collected capacity findings ordinary pushed)
    (hkind : finding.kind ≠ .maxValidationErrorsReached) :
    Collected capacity (findings.push finding)
      (if pushed.length < capacity then ordinary ++ [finding] else ordinary)
      (pushed ++ [finding]) := by
  rcases Nat.lt_trichotomy pushed.length capacity with hroom | hlast | hmore
  · rw [if_pos hroom]
    exact h.push_of_lt hkind hroom
  · rw [if_neg (Nat.not_lt_of_le (Nat.le_of_eq hlast.symm))]
    exact h.push_of_eq hkind hlast
  · rw [if_neg (Nat.lt_asymm hmore), h.push_eq_self (h.isFull_iff.2 hmore)]
    refine ⟨h.capacity_eq, ?_, ?_, h.kinds_concat hkind⟩
    · rw [markOf_append hmore]
      exact h.toList_eq
    · rw [List.take_append_of_le_length (Nat.le_of_lt hmore)]
      exact h.perm

/-- The findings are sorted. -/
theorem sorted (h : Collected capacity findings ordinary pushed) :
    Collected capacity findings.sorted (ordinary.mergeSort Finding.before) pushed := by
  have hfull := h.isFull_iff
  obtain ⟨hcapacity, hlist, hperm, hkinds⟩ := h
  refine ⟨hcapacity, ?_, (ordinary.mergeSort_perm Finding.before).trans hperm, hkinds⟩
  by_cases hmore : capacity < pushed.length
  · rw [markOf_of_lt hmore] at hlist ⊢
    exact toList_sorted_of_isFull (hfull.2 hmore) hlist
  · have hopen : findings.isFull = false := by rwa [← Bool.not_eq_true, hfull]
    rw [markOf_of_le (Nat.le_of_not_lt hmore), List.append_nil] at hlist ⊢
    rw [toList_sorted hopen, hlist]

/-! ## Any actions -/

/-- Actions in any order. -/
theorem after (h : Collected capacity findings ordinary pushed) (actions : List Action)
    (hkinds : ∀ finding ∈ actions.filterMap Action.pushed?,
      finding.kind ≠ .maxValidationErrorsReached) :
    ∃ ordinary, Collected capacity (findings.after actions) ordinary
      (pushed ++ actions.filterMap Action.pushed?) := by
  induction actions generalizing findings ordinary pushed with
  | nil =>
    rw [List.filterMap_nil, List.append_nil]
    exact ⟨ordinary, h⟩
  | cons action actions ih =>
    cases action with
    | push finding =>
      have hpushed : (Action.push finding :: actions).filterMap Action.pushed? =
          finding :: actions.filterMap Action.pushed? := rfl
      rw [hpushed, List.forall_mem_cons] at hkinds
      rw [hpushed, List.append_cons]
      exact ih (h.push hkinds.1) hkinds.2
    | sort => exact ih h.sorted hkinds

/-- Nothing but pushes leaves the findings in their order. -/
theorem pushAll (h : Collected capacity findings (pushed.take capacity) pushed)
    {more : List Finding} (hkinds : ∀ finding ∈ more, finding.kind ≠ .maxValidationErrorsReached) :
    Collected capacity (findings.pushAll more) ((pushed ++ more).take capacity)
      (pushed ++ more) := by
  induction more generalizing findings pushed with
  | nil =>
    rw [List.append_nil]
    exact h
  | cons finding more ih =>
    rw [List.forall_mem_cons] at hkinds
    have hnext := h.push hkinds.1
    have htake : (if pushed.length < capacity then pushed.take capacity ++ [finding]
        else pushed.take capacity) = (pushed ++ [finding]).take capacity := by
      split
      next hroom =>
        rw [List.take_of_length_le (Nat.le_of_lt hroom), List.take_of_length_le]
        rw [List.length_append]
        exact hroom
      next hroom => rw [List.take_append_of_le_length (Nat.le_of_not_lt hroom)]
    rw [htake] at hnext
    rw [List.append_cons]
    exact ih hnext hkinds.2

end Collected

/-- Nothing is held of nothing. -/
theorem collected_fresh (capacity : Nat) : Collected capacity { capacity } [] [] :=
  ⟨rfl, by simp [markOf, toList], by simp, nofun⟩

/-- What a collector holds after any pushes and sorts, for any capacity.  These are the pushed
findings for which there is room, in some order, and one mark more exactly if there were
others, at the place of the first of these.  Exactly then it is full, and takes no finding of
any kind.  Sorting is stable and leaves the mark behind all others. -/
theorem after_collects (capacity : Nat) (actions : List Action)
    (hkinds : ∀ finding ∈ actions.filterMap Action.pushed?,
      finding.kind ≠ .maxValidationErrorsReached) :
    let findings := after { capacity } actions
    let pushed := actions.filterMap Action.pushed?
    ∃ ordinary sorted mark,
      findings.toList = ordinary ++ mark ∧ findings.sorted.toList = sorted ++ mark ∧
      ordinary.Perm (pushed.take capacity) ∧ Finding.IsStableSort sorted ordinary ∧
      (pushed.length ≤ capacity → mark = []) ∧
      (∀ next, pushed[capacity]? = some next →
        mark = [{ kind := .maxValidationErrorsReached, range := next.range }]) ∧
      (findings.isFull ↔ capacity < pushed.length) ∧
      (findings.isFull → ∀ finding, findings.push finding = findings) := by
  intro findings pushed
  obtain ⟨ordinary, hcollected⟩ := (collected_fresh capacity).after actions hkinds
  rw [List.nil_append] at hcollected
  refine ⟨ordinary, ordinary.mergeSort Finding.before, markOf capacity pushed,
    hcollected.toList_eq, hcollected.sorted.toList_eq, hcollected.perm,
    Finding.isStableSort_mergeSort ordinary, markOf_of_le, fun next hnext => ?_,
    hcollected.isFull_iff, hcollected.push_eq_self⟩
  rw [markOf, hnext]
  rfl

/-- Three findings pushed where there is room for two, sorted before the last one comes. -/
theorem after_collects_with_room_for_two :
    let late : Finding := { kind := .unusedFragment, range := ⟨9, 12⟩ }
    let early : Finding := { kind := .unusedVariable, range := ⟨4, 6⟩ }
    let dropped : Finding := { kind := .undefinedVariable, range := ⟨1, 3⟩ }
    let findings := after { capacity := 2 } [.push late, .push early, .sort, .push dropped]
    ∃ ordinary sorted,
      findings.toList = ordinary ++ [dropped.mark] ∧
      findings.sorted.toList = sorted ++ [dropped.mark] ∧
      ordinary.Perm [late, early] ∧ Finding.IsStableSort sorted ordinary ∧
      findings.isFull ∧ findings.push late = findings := by
  intro late early dropped findings
  obtain ⟨ordinary, sorted, mark, hlist, hsorted, hperm, hstable, -, hmark, hfull, hpush⟩ :=
    after_collects 2 [.push late, .push early, .sort, .push dropped] (by decide)
  have hisFull : findings.isFull := hfull.2 (by decide)
  obtain rfl := hmark dropped rfl
  exact ⟨ordinary, sorted, hlist, hsorted, hperm, hstable, hisFull, hpush hisFull late⟩

end Findings

/-! ## Validations -/

/-- Rules report nothing that looks like the mark. -/
theorem Rule.kind_ne_of_mem_reports (rules : List Rule) (visits : List Visit) :
    ∀ finding ∈ reports rules visits, finding.kind ≠ .maxValidationErrorsReached := by
  intro finding hfinding hmark
  obtain ⟨rule, -, hrule⟩ := List.mem_flatMap.1 ((reports_perm rules visits).mem_iff.1 hfinding)
  have hreporter := reports_reports rule visits finding hrule
  rw [hmark] at hreporter
  cases hreporter

/-- A validation without a check on fields collects what its rules report, as much as there is
room for, and sorts it.  If there is more it is marked at the place of the first report that
was dropped. -/
theorem Validator.run_collects (rules : List Rule) (capacity : Nat) (document : Document) :
    let reported := Rule.reports rules document.executable.visits
    ∃ findings sorted,
      Validator.run { guard := none, rules, findings := { capacity } } document = .ok findings ∧
      Finding.IsStableSort sorted (reported.take capacity) ∧
      findings.toList = sorted ++ (reported[capacity]?.map Finding.mark).toList := by
  intro reported
  have hguard : ({ guard := none, rules, findings := { capacity } } : Validator).guard = none := rfl
  obtain ⟨last, hlast, hfindings⟩ := traverse_unguarded hguard document.executable.visits
  have hfresh : Findings.Collected capacity { capacity } (([] : List Finding).take capacity) [] := by
    rw [List.take_nil]
    exact Findings.collected_fresh capacity
  have hcollected := hfresh.pushAll (Rule.kind_ne_of_mem_reports rules document.executable.visits)
  rw [← hfindings, List.nil_append] at hcollected
  refine ⟨last.leave.findings.sorted, _, by rw [run, hlast], ?_, hcollected.sorted.toList_eq⟩
  exact Finding.isStableSort_mergeSort _

end GuardedQuery
