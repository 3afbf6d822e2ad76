import GuardedQuery.Validation.ByName
import Mathlib.Data.List.Nodup
import Mathlib.Logic.Relation

/-! # Values by name

What can be looked up after names are added, and what can be reached along a graph of names.

- `ByName.mapValues`: other values for the same names.
- `ByName.get?_insertNew`, `ByName.get?_update`: one name added or changed.
- `firstsBy`: those that come first with their name.
- `ByName.firsts`: their values by name.
- `ByName.gather`: values that are grown from parts, name by name.
- `ByName.mem_reach`: the names that are reached are those along paths.
-/

namespace GuardedQuery

namespace ByName

variable {α β : Type} {f : α → β}

def mapValues (f : α → β) (map : ByName α) : ByName β :=
  ⟨map.entries.map fun (name, value) => (name, f value)⟩

theorem entries_mapValues (map : ByName α) :
    (map.mapValues f).entries = map.entries.map fun entry => (entry.1, f entry.2) := rfl

@[simp] theorem get?_mapValues (map : ByName α) (name : String) :
    (map.mapValues f).get? name = (map.get? name).map f := by
  obtain ⟨entries⟩ := map
  simp only [mapValues, get?]
  induction entries with
  | nil => rfl
  | cons entry entries ih =>
    rw [List.map_cons, List.lookup_cons, List.lookup_cons]
    split
    · rfl
    · exact ih

@[simp] theorem contains_mapValues (map : ByName α) (name : String) :
    (map.mapValues f).contains name = map.contains name := by
  simp [contains]

theorem insertNew_mapValues (map : ByName α) (name : String) (value : α) :
    (map.mapValues f).insertNew name (f value) = (map.insertNew name value).mapValues f := by
  simp only [insertNew, contains_mapValues]
  split
  · rfl
  · simp [mapValues]

theorem update_mapValues {change : α → α} {change' : β → β}
    (h : ∀ value, change' (f value) = f (change value)) (map : ByName α) (name : String) :
    (map.mapValues f).update name change' = (map.update name change).mapValues f := by
  simp only [update, mapValues, List.map_map, ByName.mk.injEq]
  refine List.map_congr_left fun entry _ => ?_
  simp only [Function.comp_apply, Prod.mk.injEq, true_and]
  split
  · exact h entry.2
  · rfl

/-! ## Looking up -/

variable {map : ByName α} {name other : String} {value : α}

theorem contains_iff : map.contains name = true ↔ name ∈ map.names := by
  simp [contains, get?, names, List.lookup_isSome_iff]

theorem get?_eq_none_iff : map.get? name = none ↔ name ∉ map.names := by
  rw [← contains_iff, contains]
  simp

theorem get?_insertNew (map : ByName α) (name other : String) (value : α) :
    (map.insertNew name value).get? other =
      if other = name then some ((map.get? name).getD value) else map.get? other := by
  rw [insertNew]
  split
  next hknown =>
    rw [contains, Option.isSome_iff_exists] at hknown
    obtain ⟨known, hknown⟩ := hknown
    split
    next heq => rw [heq, hknown, Option.getD_some]
    next => rfl
  next hnew =>
    rw [contains, Bool.not_eq_true, Option.isSome_eq_false_iff, Option.isNone_iff_eq_none] at hnew
    rw [get?, List.lookup_append, ← get?, List.lookup_cons]
    by_cases hother : other = name
    · simp [hother, hnew]
    · simp [hother, beq_false_of_ne hother]

theorem get?_update (map : ByName α) (name other : String) (change : α → α) :
    (map.update name change).get? other =
      if other = name then (map.get? name).map change else map.get? other := by
  obtain ⟨entries⟩ := map
  simp only [update, get?]
  induction entries with
  | nil => simp
  | cons entry entries ih =>
    obtain ⟨known, value⟩ := entry
    simp only [List.map_cons, List.lookup_cons, ih]
    by_cases hother : other = name
    · subst hother
      by_cases hknown : known = other
      · simp [hknown]
      · simp [beq_false_of_ne (Ne.symm hknown)]
    · by_cases hknown : known = other
      · simp [hknown, hother]
      · simp [beq_false_of_ne (Ne.symm hknown), hother]

theorem names_insertNew (map : ByName α) (name : String) (value : α) :
    (map.insertNew name value).names =
      if name ∈ map.names then map.names else map.names ++ [name] := by
  rw [insertNew]
  split
  next hknown => rw [if_pos (contains_iff.1 hknown)]
  next hnew => rw [if_neg (mt contains_iff.2 hnew), names, List.map_append]; rfl

@[simp] theorem names_update (map : ByName α) (name : String) (change : α → α) :
    (map.update name change).names = map.names := by
  simp [update, names]

/-- Two changes to one name. -/
theorem update_update (map : ByName α) (name : String) (change more : α → α) :
    (map.update name change).update name more = map.update name (more ∘ change) := by
  simp only [update, List.map_map, ByName.mk.injEq]
  apply List.map_congr_left
  intro entry _
  by_cases hname : entry.1 = name <;> simp [hname]

theorem nodup_insertNew (h : map.names.Nodup) : (map.insertNew name value).names.Nodup := by
  rw [names_insertNew]
  split
  next => exact h
  next hnew => exact h.append (List.nodup_singleton name) (by simpa using hnew)

/-- If no name comes twice, the entries are what can be looked up. -/
theorem mem_entries_iff (h : map.names.Nodup) :
    (name, value) ∈ map.entries ↔ map.get? name = some value := by
  obtain ⟨entries⟩ := map
  simp only [names, get?] at h ⊢
  induction entries with
  | nil => simp
  | cons entry entries ih =>
    obtain ⟨known, found⟩ := entry
    rw [List.map_cons, List.nodup_cons] at h
    rw [List.mem_cons, List.lookup_cons, ih h.2, Prod.mk.injEq]
    by_cases hname : name = known
    · subst hname
      have hmissing : (ByName.mk entries).get? name = none := get?_eq_none_iff.2 h.1
      rw [get?] at hmissing
      simp [hmissing, eq_comm]
    · simp [hname, beq_false_of_ne hname]

end ByName

/-! ## First ones -/

section firsts

variable {α β : Type} {key : β → String}

def firstsBy (key : β → String) : List β → List β
  | [] => []
  | x :: xs => x :: (firstsBy key xs).filter (key · ≠ key x)

theorem mem_firstsBy {x : β} {xs : List β} :
    x ∈ firstsBy key xs ↔ xs.find? (key · = key x) = some x := by
  induction xs with
  | nil => simp [firstsBy]
  | cons first xs ih =>
    rw [firstsBy, List.mem_cons, List.mem_filter, ih, List.find?_cons]
    by_cases hkey : key first = key x
    · simp [hkey, eq_comm]
    · have hne : x ≠ first := by
        rintro rfl
        exact hkey rfl
      simp [hkey, hne, Ne.symm hkey]

/-- Every name has a first one. -/
theorem exists_mem_firstsBy {name : String} {xs : List β} :
    (∃ x ∈ firstsBy key xs, key x = name) ↔ ∃ x ∈ xs, key x = name := by
  constructor
  · rintro ⟨x, hx, rfl⟩
    exact ⟨x, List.mem_of_find?_eq_some (mem_firstsBy.1 hx), rfl⟩
  · rintro ⟨x, hx, hname⟩
    have hsome : (xs.find? (key · = name)).isSome := by
      rw [List.find?_isSome]
      exact ⟨x, hx, decide_eq_true hname⟩
    obtain ⟨first, hfirst⟩ := Option.isSome_iff_exists.1 hsome
    have hkey : key first = name := by simpa using List.find?_some hfirst
    exact ⟨first, mem_firstsBy.2 (by rw [hkey]; exact hfirst), hkey⟩

theorem nodup_firstsBy (xs : List β) : ((firstsBy key xs).map key).Nodup := by
  induction xs with
  | nil => exact List.nodup_nil
  | cons x xs ih =>
    rw [firstsBy, List.map_cons, List.nodup_cons]
    constructor
    · intro hmem
      obtain ⟨other, hother, hkey⟩ := List.mem_map.1 hmem
      exact of_decide_eq_true (List.mem_filter.1 hother).2 hkey
    · exact ih.sublist (List.filter_sublist.map key)

namespace ByName

/-- Of several values for one name the first one is kept. -/
theorem entries_foldl_insertNew (key : β → String) (value : β → α) (map : ByName α) (xs : List β) :
    (xs.foldl (fun map x => map.insertNew (key x) (value x)) map).entries =
      map.entries ++ ((firstsBy key xs).filter (key · ∉ map.names)).map
        fun x => (key x, value x) := by
  induction xs generalizing map with
  | nil => simp [firstsBy]
  | cons x xs ih =>
    rw [List.foldl_cons, ih, firstsBy]
    by_cases hknown : key x ∈ map.names
    · have hinsert : map.insertNew (key x) (value x) = map := by
        rw [insertNew, if_pos (contains_iff.2 hknown)]
      have hlater : ((firstsBy key xs).filter (key · ≠ key x)).filter (key · ∉ map.names) =
          (firstsBy key xs).filter (key · ∉ map.names) := by
        rw [List.filter_filter]
        apply List.filter_congr
        intro y _
        by_cases hy : key y = key x <;> simp [hy, hknown]
      rw [hinsert, List.filter_cons_of_neg (by simpa using hknown), hlater]
    · have hinsert : (map.insertNew (key x) (value x)).entries =
          map.entries ++ [(key x, value x)] := by
        rw [insertNew, if_neg (mt contains_iff.1 hknown)]
      have hlater : (firstsBy key xs).filter
            (key · ∉ (map.insertNew (key x) (value x)).names) =
          ((firstsBy key xs).filter (key · ≠ key x)).filter (key · ∉ map.names) := by
        rw [List.filter_filter, names_insertNew, if_neg hknown]
        apply List.filter_congr
        intro y _
        simp
      rw [hinsert, List.filter_cons_of_pos (by simpa using hknown), hlater]
      simp

def firsts (key : β → String) (value : β → α) (xs : List β) : ByName α :=
  xs.foldl (fun map x => map.insertNew (key x) (value x)) {}

theorem entries_firsts (key : β → String) (value : β → α) (xs : List β) :
    (firsts key value xs).entries = (firstsBy key xs).map fun x => (key x, value x) := by
  rw [firsts, entries_foldl_insertNew]
  simp [names]

theorem contains_firsts {value : β → α} {xs : List β} {name : String} :
    (firsts key value xs).contains name = true ↔ ∃ x ∈ xs, key x = name := by
  rw [contains_iff, names, entries_firsts, List.map_map, ← exists_mem_firstsBy]
  exact List.mem_map

def gather (key : β → String) (start : α) (grow : α → β → α) (map : ByName α) (x : β) : ByName α :=
  (map.insertNew (key x) start).update (key x) (grow · x)

variable (key : β → String) (start : α) (grow : α → β → α)

theorem nodup_foldl_gather {map : ByName α} (h : map.names.Nodup) (xs : List β) :
    (xs.foldl (gather key start grow) map).names.Nodup := by
  induction xs generalizing map with
  | nil => exact h
  | cons x xs ih =>
    apply ih
    rw [gather, names_update]
    exact nodup_insertNew h

/-- The value of a name is grown from the parts of that name, in order. -/
theorem get?_foldl_gather (map : ByName α) (xs : List β) (name : String) :
    (xs.foldl (gather key start grow) map).get? name =
      if xs.any (key · = name) then
        some ((xs.filter (key · = name)).foldl grow ((map.get? name).getD start))
      else map.get? name := by
  induction xs generalizing map with
  | nil => simp
  | cons x xs ih =>
    have hgather : (gather key start grow map x).get? name =
        if key x = name then some (grow ((map.get? name).getD start) x) else map.get? name := by
      rw [gather, get?_update, get?_insertNew, get?_insertNew]
      by_cases hname : key x = name
      · simp [hname]
      · simp [hname, Ne.symm hname]
    rw [List.foldl_cons, ih, hgather]
    by_cases hname : key x = name
    · by_cases hlater : xs.any (key · = name)
      · simp [hname, hlater]
      · have hnone : xs.filter (key · = name) = [] := by
          rw [List.filter_eq_nil_iff]
          intro y hy hkey
          exact hlater (List.any_eq_true.2 ⟨y, hy, hkey⟩)
        simp [hname, hlater, hnone]
    · simp [hname]

end ByName

end firsts

/-! ## Reaching names -/

namespace ByName

variable {graph : ByName (List String)}

def Leads (graph : ByName (List String)) (name target : String) : Prop :=
  ∃ targets, graph.get? name = some targets ∧ target ∈ targets

/-- What is reached was seen before or lies on a path from the stack. -/
theorem exists_path_of_mem_reachFrom {seen stack : List String} {target : String}
    (h : target ∈ reachFrom graph seen stack) :
    target ∈ seen ∨ ∃ name ∈ stack, Relation.ReflTransGen graph.Leads name target := by
  fun_induction reachFrom graph seen stack with
  | case1 => exact .inl h
  | case2 seen name stack hseen ih =>
    rcases ih h with h | ⟨start, hstart, hpath⟩
    · exact .inl h
    · exact .inr ⟨start, .tail _ hstart, hpath⟩
  | case3 seen name stack hnew hknown ih =>
    rcases ih h with h | ⟨start, hstart, hpath⟩
    · rcases List.mem_cons.1 h with rfl | h
      · exact .inr ⟨target, .head _, .refl⟩
      · exact .inl h
    · exact .inr ⟨start, .tail _ hstart, hpath⟩
  | case4 seen name stack hnew targets hknown ih =>
    rcases ih h with h | ⟨start, hstart, hpath⟩
    · rcases List.mem_cons.1 h with rfl | h
      · exact .inr ⟨target, .head _, .refl⟩
      · exact .inl h
    · rw [List.mem_append, List.mem_reverse] at hstart
      rcases hstart with hstart | hstart
      · exact .inr ⟨name, .head _, .head ⟨targets, hknown, hstart⟩ hpath⟩
      · exact .inr ⟨start, .tail _ hstart, hpath⟩

/-- What was seen and what is on the stack is reached. -/
theorem mem_reachFrom_of_mem (graph : ByName (List String)) (seen stack : List String) :
    ∀ name ∈ seen ++ stack, name ∈ reachFrom graph seen stack := by
  fun_induction reachFrom graph seen stack with
  | case1 => simp
  | case2 seen name stack hseen ih =>
    intro other hother
    apply ih
    simp only [List.mem_append, List.mem_cons] at hother ⊢
    rcases hother with hother | rfl | hother
    · exact .inl hother
    · exact .inl hseen
    · exact .inr hother
  | case3 seen name stack hnew hknown ih =>
    intro other hother
    apply ih
    simp only [List.mem_append, List.mem_cons] at hother ⊢
    tauto
  | case4 seen name stack hnew targets hknown ih =>
    intro other hother
    apply ih
    simp only [List.mem_append, List.mem_cons] at hother ⊢
    tauto

/-- If all that the seen names lead to is seen or on the stack, then what is reached leads
only to what is reached. -/
theorem closed_reachFrom {seen stack : List String}
    (h : ∀ name ∈ seen, ∀ target, graph.Leads name target → target ∈ seen ++ stack) :
    ∀ name ∈ reachFrom graph seen stack, ∀ target, graph.Leads name target →
      target ∈ reachFrom graph seen stack := by
  fun_induction reachFrom graph seen stack with
  | case1 seen => simpa using h
  | case2 seen name stack hseen ih =>
    apply ih
    intro other hother target hleads
    have htarget := h other hother target hleads
    simp only [List.mem_append, List.mem_cons] at htarget ⊢
    rcases htarget with htarget | rfl | htarget
    · exact .inl htarget
    · exact .inl hseen
    · exact .inr htarget
  | case3 seen name stack hnew hknown ih =>
    apply ih
    intro other hother target hleads
    rcases List.mem_cons.1 hother with rfl | hother
    · -- The graph does not know the name, so it leads nowhere.
      obtain ⟨targets, htargets, -⟩ := hleads
      rw [hknown] at htargets
      cases htargets
    · have htarget := h other hother target hleads
      simp only [List.mem_append, List.mem_cons] at htarget ⊢
      tauto
  | case4 seen name stack hnew targets hknown ih =>
    apply ih
    intro other hother target hleads
    rcases List.mem_cons.1 hother with rfl | hother
    · obtain ⟨known, hother, htarget⟩ := hleads
      rw [hknown] at hother
      cases hother
      simp [htarget]
    · have htarget := h other hother target hleads
      simp only [List.mem_append, List.mem_cons, List.mem_reverse] at htarget ⊢
      tauto

/-- The names that are reached are those on paths from the starts. -/
theorem mem_reach {starts : List String} {name : String} :
    name ∈ graph.reach starts ↔
      ∃ start ∈ starts, Relation.ReflTransGen graph.Leads start name := by
  rw [reach, List.mem_reverse]
  constructor
  · intro h
    obtain hnil | ⟨start, hstart, hpath⟩ := exists_path_of_mem_reachFrom h
    · exact absurd hnil List.not_mem_nil
    · exact ⟨start, List.mem_reverse.1 hstart, hpath⟩
  · rintro ⟨start, hstart, hpath⟩
    induction hpath with
    | refl => exact mem_reachFrom_of_mem graph _ _ start (by simpa using hstart)
    | tail _ hleads ih =>
      exact closed_reachFrom (fun _ hseen => absurd hseen List.not_mem_nil) _ ih _ hleads

end ByName

end GuardedQuery
