import GuardedQuery.Validation.Finding
import Mathlib.Data.List.Perm.Basic

/-! # Sorted findings

Findings are sorted by where they start and then by kind.  Those that agree in both stay in
the order in which they came, so the sorted list depends only on that order.

- `Finding.IsStableSort`: a sorted list of findings, ties left as they were.
- `Finding.isStableSort_mergeSort`: what sorting gives.
- `Finding.IsStableSort.congr`, `Finding.IsStableSort.unique`: it depends on nothing else.
-/

namespace GuardedQuery

theorem FindingKind.mem_all (kind : FindingKind) : kind ∈ FindingKind.all := by
  cases kind <;> decide

theorem FindingKind.rank_injective : Function.Injective FindingKind.rank :=
  fun a _ h => (List.idxOf_inj (mem_all a)).mp h

namespace Finding

/-! ## The order of findings -/

theorem before_iff (a b : Finding) :
    a.before b ↔ a.range.start < b.range.start ∨
      a.range.start = b.range.start ∧ a.kind.rank ≤ b.kind.rank := by
  simp [before]

theorem before_trans (a b c : Finding) (hab : a.before b) (hbc : b.before c) : a.before c := by
  rw [before_iff] at hab hbc ⊢
  omega

theorem before_total (a b : Finding) : a.before b || b.before a := by
  rw [Bool.or_eq_true, before_iff, before_iff]
  omega

/-- Findings that may stand in either order start at one place and are of one kind. -/
theorem before_antisymm {a b : Finding} (hab : a.before b) (hba : b.before a) :
    a.range.start = b.range.start ∧ a.kind = b.kind := by
  rw [before_iff] at hab hba
  exact ⟨by omega, FindingKind.rank_injective (by omega)⟩

def isAt (start : Nat) (kind : FindingKind) (finding : Finding) : Bool :=
  finding.range.start = start && finding.kind = kind

theorem isAt_iff {start : Nat} {kind : FindingKind} {finding : Finding} :
    finding.isAt start kind ↔ finding.range.start = start ∧ finding.kind = kind := by
  simp [isAt]

/-! ## Stable sorts -/

/-- The first list holds the findings of the second one in order of start and kind.  Those
that agree in both stay as they were. -/
structure IsStableSort (sorted findings : List Finding) : Prop where
  perm : sorted.Perm findings
  ordered : sorted.Pairwise fun a b => a.before b
  stable (start : Nat) (kind : FindingKind) :
    sorted.filter (isAt start kind) = findings.filter (isAt start kind)

theorem isStableSort_mergeSort (findings : List Finding) :
    IsStableSort (findings.mergeSort before) findings where
  perm := findings.mergeSort_perm before
  ordered := List.pairwise_mergeSort before_trans before_total findings
  stable start kind := by
    have hties : (findings.filter (isAt start kind)).Pairwise fun a b => a.before b := by
      refine List.pairwise_of_forall_mem_list fun a ha b hb => ?_
      obtain ⟨hstart, hkind⟩ := isAt_iff.mp (List.mem_filter.mp ha).2
      obtain ⟨hstart', hkind'⟩ := isAt_iff.mp (List.mem_filter.mp hb).2
      rw [before_iff, hstart, hstart', hkind, hkind']
      omega
    have hsublist := (List.sublist_mergeSort before_trans before_total hties
      List.filter_sublist).filter (isAt start kind)
    rw [List.filter_filter] at hsublist
    simp only [Bool.and_self] at hsublist
    have hperm := (findings.mergeSort_perm before).filter (isAt start kind)
    exact (hsublist.eq_of_length_le (Nat.le_of_eq hperm.length_eq)).symm

/-- Sorted lists that agree on every place and kind are equal. -/
theorem eq_of_ordered {xs ys : List Finding} (hxs : xs.Pairwise fun a b => a.before b)
    (hys : ys.Pairwise fun a b => a.before b)
    (h : ∀ start kind, xs.filter (isAt start kind) = ys.filter (isAt start kind)) : xs = ys := by
  have hmem {xs ys : List Finding}
      (h : ∀ start kind, xs.filter (isAt start kind) = ys.filter (isAt start kind)) :
      ∀ x ∈ xs, x ∈ ys := by
    intro x hx
    have hfilter : x ∈ xs.filter (isAt x.range.start x.kind) :=
      List.mem_filter.mpr ⟨hx, isAt_iff.mpr ⟨rfl, rfl⟩⟩
    rw [h] at hfilter
    exact List.mem_of_mem_filter hfilter
  induction xs generalizing ys with
  | nil =>
    have hnil := hmem fun start kind => (h start kind).symm
    exact (List.eq_nil_iff_forall_not_mem.mpr fun y hy => by simpa using hnil y hy).symm
  | cons x xs ih =>
    cases ys with
    | nil => simpa using hmem h x List.mem_cons_self
    | cons y ys =>
      rw [List.pairwise_cons] at hxs hys
      have hxy : x.before y := by
        rcases List.mem_cons.mp (hmem (fun s k => (h s k).symm) y List.mem_cons_self) with rfl | hy
        · simp [before_iff]
        · exact hxs.1 y hy
      have hyx : y.before x := by
        rcases List.mem_cons.mp (hmem h x List.mem_cons_self) with rfl | hx
        · simp [before_iff]
        · exact hys.1 x hx
      obtain ⟨hstart, hkind⟩ := before_antisymm hxy hyx
      have hfirst := h x.range.start x.kind
      rw [List.filter_cons_of_pos (isAt_iff.mpr ⟨rfl, rfl⟩),
        List.filter_cons_of_pos (isAt_iff.mpr ⟨hstart.symm, hkind.symm⟩)] at hfirst
      obtain rfl := (List.cons.inj hfirst).1
      refine congrArg (x :: ·) (ih hxs.2 hys.2 fun start kind => ?_)
      have hrest := h start kind
      rw [List.filter_cons, List.filter_cons] at hrest
      split at hrest
      · exact (List.cons.inj hrest).2
      · exact hrest

namespace IsStableSort

variable {xs ys findings others : List Finding}

/-- A stable sort depends only on the order of findings that tie. -/
theorem congr (h : IsStableSort xs findings) (hperm : findings.Perm others)
    (hties : ∀ start kind, findings.filter (isAt start kind) = others.filter (isAt start kind)) :
    IsStableSort xs others where
  perm := h.perm.trans hperm
  ordered := h.ordered
  stable start kind := (h.stable start kind).trans (hties start kind)

/-- There is one stable sort of a list. -/
theorem unique (hxs : IsStableSort xs findings) (hys : IsStableSort ys findings) : xs = ys :=
  eq_of_ordered hxs.ordered hys.ordered fun start kind => by
    rw [hxs.stable, hys.stable]

end IsStableSort

end Finding

end GuardedQuery
