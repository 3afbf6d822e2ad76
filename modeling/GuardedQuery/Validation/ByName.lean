/-! # Values by name

Values that are looked up by name and kept in the order in which their names came.

- `ByName`: the pairs, no name twice.
- `ByName.insertNew`, `ByName.update`: two ways to add.
- `ByName.reach`: the names that can be reached along a graph of names.
-/

namespace GuardedQuery

/-- Names and their values, in the order in which the names came. -/
structure ByName (α : Type) where
  entries : List (String × α) := []
deriving Repr, DecidableEq

namespace ByName

variable {α : Type}

def names (map : ByName α) : List String :=
  map.entries.map (·.1)

def get? (map : ByName α) (name : String) : Option α :=
  map.entries.lookup name

def contains (map : ByName α) (name : String) : Bool :=
  (map.get? name).isSome

def insertNew (map : ByName α) (name : String) (value : α) : ByName α :=
  if map.contains name then map else ⟨map.entries ++ [(name, value)]⟩

def update (map : ByName α) (name : String) (change : α → α) : ByName α :=
  ⟨map.entries.map fun (n, value) => (n, if n = name then change value else value)⟩

theorem mem_names_of_get? {map : ByName α} {name : String} {value : α}
    (h : map.get? name = some value) : name ∈ map.names := by
  obtain ⟨entries⟩ := map
  simp only [get?, names] at h ⊢
  induction entries with
  | nil => simp at h
  | cons entry rest ih =>
    obtain ⟨n, v⟩ := entry
    rw [List.lookup_cons] at h
    split at h
    · next heq => simp [beq_iff_eq.mp heq]
    · exact List.mem_cons_of_mem _ (ih h)

/-- Taking a new name among `names` off the list of those that are missing from `seen`
leaves fewer of them. -/
theorem countP_not_mem_cons_lt {names seen : List String} {name : String}
    (hname : name ∈ names) (hseen : name ∉ seen) :
    names.countP (fun n => decide (n ∉ name :: seen)) <
      names.countP (fun n => decide (n ∉ seen)) := by
  induction names with
  | nil => simp at hname
  | cons n rest ih =>
    have hle : rest.countP (fun n => decide (n ∉ name :: seen)) ≤
        rest.countP (fun n => decide (n ∉ seen)) := by
      apply List.countP_mono_left
      intro m _ hm
      simp only [List.mem_cons, not_or, decide_eq_true_eq] at hm ⊢
      exact hm.2
    rw [List.countP_cons, List.countP_cons]
    by_cases hn : n = name
    · subst hn
      simp only [List.mem_cons, true_or, not_true_eq_false, decide_false, hseen,
        not_false_eq_true, decide_true, if_true]
      simp only [Bool.false_eq_true, if_false]
      simp only [List.mem_cons] at hle
      omega
    · have hrest : name ∈ rest := by
        rcases List.mem_cons.mp hname with rfl | h
        · exact absurd rfl hn
        · exact h
      have := ih hrest
      have hiff : (n ∉ name :: seen) ↔ n ∉ seen := by simp [hn]
      simp only [hiff]
      omega

/-! ## Reaching names -/

/-- Follows the graph from the names on the stack, the top one first.  A name that was
seen is passed over; one that was not is seen, and the names it leads to go on top of the
stack in reverse.  Gives the seen names, the latest first. -/
def reachFrom (graph : ByName (List String)) (seen : List String) :
    List String → List String
  | [] => seen
  | name :: stack =>
    if _new : name ∈ seen then reachFrom graph seen stack
    else
      match _known : graph.get? name with
      | none => reachFrom graph (name :: seen) stack
      | some targets => reachFrom graph (name :: seen) (targets.reverse ++ stack)
termination_by stack => (graph.names.countP (fun n => decide (n ∉ seen)), stack.length)
decreasing_by
  · exact Prod.Lex.right _ (by simp)
  · have hle : graph.names.countP (fun n => decide (n ∉ name :: seen)) ≤
        graph.names.countP (fun n => decide (n ∉ seen)) := by
      apply List.countP_mono_left
      intro m _ hm
      simp only [List.mem_cons, not_or, decide_eq_true_eq] at hm ⊢
      exact hm.2
    rcases Nat.lt_or_eq_of_le hle with hlt | heq
    · exact Prod.Lex.left _ _ hlt
    · rw [heq]; exact Prod.Lex.right _ (by simp)
  · exact Prod.Lex.left _ _ (countP_not_mem_cons_lt (mem_names_of_get? _known) _new)

/-- The names reached from `starts`, in the order in which they are reached: of names at
hand, the one that came last goes first. -/
def reach (graph : ByName (List String)) (starts : List String) : List String :=
  (reachFrom graph [] starts.reverse).reverse

end ByName

end GuardedQuery
