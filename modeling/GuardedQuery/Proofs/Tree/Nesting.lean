import GuardedQuery.Proofs.Tree.Basic

/-! # Counting along a walk

- `openRules`: rules entered and not left yet.
- `terminalCount`: tokens taken.
- `Balanced`: every rule that is left was entered before, and every rule is left.
- `balanced_allEvents`: walks are balanced.
- `terminalCount_allEvents`: a walk takes every significant token once.
-/

namespace GuardedQuery

namespace Event

def isEnter : Event → Bool
  | enter .. => true
  | _ => false

def isExit : Event → Bool
  | exit _ => true
  | _ => false

def isTerminal : Event → Bool
  | terminal .. => true
  | _ => false

end Event

def openRules (events : List Event) : Int :=
  events.countP Event.isEnter - events.countP Event.isExit

def terminalCount (events : List Event) : Nat :=
  events.countP Event.isTerminal

section counts

variable {rule : NodeKind} {kind : TokenKind} {range : ByteRange} {text : String}
  {anomaly : Anomaly}

@[simp] theorem openRules_nil : openRules [] = 0 := rfl

@[simp] theorem openRules_append (events later : List Event) :
    openRules (events ++ later) = openRules events + openRules later := by
  simp only [openRules, List.countP_append]
  omega

@[simp] theorem openRules_enter : openRules [.enter rule range text] = 1 := rfl

@[simp] theorem openRules_exit : openRules [.exit rule] = -1 := rfl

@[simp] theorem openRules_terminal : openRules [.terminal kind range text] = 0 := rfl

@[simp] theorem openRules_anomaly : openRules [.anomaly anomaly] = 0 := rfl

@[simp] theorem terminalCount_nil : terminalCount [] = 0 := rfl

@[simp] theorem terminalCount_append (events later : List Event) :
    terminalCount (events ++ later) = terminalCount events + terminalCount later :=
  List.countP_append

@[simp] theorem terminalCount_enter : terminalCount [.enter rule range text] = 0 := rfl

@[simp] theorem terminalCount_exit : terminalCount [.exit rule] = 0 := rfl

@[simp] theorem terminalCount_terminal : terminalCount [.terminal kind range text] = 1 := rfl

@[simp] theorem terminalCount_anomaly : terminalCount [.anomaly anomaly] = 0 := rfl

end counts

/-! ## Nesting -/

def Nested (events : List Event) : Prop :=
  ∀ before, before <+: events → 0 ≤ openRules before

structure Balanced (events : List Event) : Prop where
  nested : Nested events
  settled : openRules events = 0

/-- Either the first events are cut short, or they are followed by a part of the others. -/
theorem isPrefix_append {before events later : List Event} (h : before <+: events ++ later) :
    before <+: events ∨ ∃ more, more <+: later ∧ events ++ more = before := by
  cases List.prefix_or_prefix_of_prefix h (List.prefix_append events later) with
  | inl hshort => exact .inl hshort
  | inr hlong =>
    obtain ⟨more, rfl⟩ := hlong
    exact .inr ⟨more, (List.prefix_append_right_inj events).1 h, rfl⟩

theorem isPrefix_singleton {before : List Event} {event : Event} (h : before <+: [event]) :
    before = [] ∨ before = [event] := by
  cases List.prefix_cons_iff.1 h with
  | inl hnil => exact .inl hnil
  | inr hcons =>
    obtain ⟨rest, rfl, hrest⟩ := hcons
    exact .inr (by rw [List.prefix_nil.1 hrest])

theorem Nested.of_append {events later : List Event} (h : Nested (events ++ later)) :
    Nested events :=
  fun before hbefore => h before (hbefore.trans (List.prefix_append events later))

theorem Nested.openRules_nonneg {events : List Event} (h : Nested events) :
    0 ≤ openRules events :=
  h events (List.prefix_refl events)

/-- Events without exits keep a nesting. -/
theorem Nested.append_of_no_exit {events later : List Event} (h : Nested events)
    (hlater : ∀ event ∈ later, event.isExit = false) : Nested (events ++ later) := by
  intro before hbefore
  rcases isPrefix_append hbefore with hfront | ⟨more, hmore, rfl⟩
  · exact h before hfront
  · -- What comes in addition can only open rules.
    have hexits : more.countP Event.isExit = 0 := by
      rw [List.countP_eq_zero]
      intro event member
      simp [hlater event (hmore.subset member)]
    have hfront := h.openRules_nonneg
    rw [openRules_append]
    simp only [openRules, hexits] at hfront ⊢
    omega

theorem balanced_nil : Balanced [] where
  nested := by
    intro before hbefore
    obtain rfl := List.prefix_nil.1 hbefore
    exact Int.le_refl 0
  settled := rfl

theorem Balanced.append {events later : List Event} (h : Balanced events)
    (hlater : Balanced later) : Balanced (events ++ later) where
  nested := by
    intro before hbefore
    rcases isPrefix_append hbefore with hfront | ⟨more, hmore, rfl⟩
    · exact h.nested before hfront
    · rw [openRules_append, h.settled, Int.zero_add]
      exact hlater.nested more hmore
  settled := by
    rw [openRules_append, h.settled, hlater.settled]
    rfl

theorem balanced_terminal (kind : TokenKind) (range : ByteRange) (text : String) :
    Balanced [.terminal kind range text] where
  nested := by
    intro before hbefore
    rcases isPrefix_singleton hbefore with rfl | rfl
    · exact Int.le_refl 0
    · exact Int.le_refl 0
  settled := rfl

/-- A rule around a balanced part. -/
theorem Balanced.within {events : List Event} (h : Balanced events) (rule : NodeKind)
    (range : ByteRange) (text : String) :
    Balanced ([.enter rule range text] ++ events ++ [.exit rule]) where
  nested := by
    intro before hbefore
    rw [List.append_assoc] at hbefore
    -- The cut lies in front of the entry, inside the part, or behind the exit.
    rcases isPrefix_append hbefore with hfront | ⟨more, hmore, rfl⟩
    · rcases isPrefix_singleton hfront with rfl | rfl
      · exact Int.le_refl 0
      · simp
    · rw [openRules_append, openRules_enter]
      rcases isPrefix_append hmore with hinner | ⟨last, hlast, rfl⟩
      · have hopen := h.nested more hinner
        omega
      · rw [openRules_append, h.settled]
        rcases isPrefix_singleton hlast with rfl | rfl
        · simp
        · simp
  settled := by
    rw [openRules_append, openRules_append, h.settled]
    rfl

/-! ## Walks -/

namespace Tree

theorem balanced_of_forall {trees : List Tree} (h : ∀ tree ∈ trees, Balanced tree.events) :
    Balanced (allEvents trees) := by
  induction trees with
  | nil => exact balanced_nil
  | cons tree trees ih =>
    rw [List.forall_mem_cons] at h
    exact h.1.append (ih h.2)

/-- The walk through a node that holds a token is balanced if that of its children is. -/
theorem balanced_node {kind : NodeKind} {children : List Tree}
    (hleaves : allLeaves children ≠ []) (hproper : ∀ child ∈ children, child.Proper)
    (h : Balanced (allEvents children)) : Balanced (node kind children).events := by
  obtain ⟨first, rest, hfirst⟩ := List.exists_cons_of_ne_nil hleaves
  rw [Tree.events, entry_allLeaves kind hproper hfirst]
  exact h.within kind first.range first.text

theorem Proper.balanced {tree : Tree} (h : tree.Proper) : Balanced tree.events := by
  induction h with
  | leaf h =>
    simp only [Tree.events, h, Bool.false_eq_true, if_false]
    exact balanced_terminal _ _ _
  | node _ hleaves hchildren ih => exact balanced_node hleaves hchildren (balanced_of_forall ih)

theorem balanced_allEvents {trees : List Tree} (h : ∀ tree ∈ trees, tree.Proper) :
    Balanced (allEvents trees) :=
  balanced_of_forall fun tree member => (h tree member).balanced

mutual

/-- A walk takes every significant token once. -/
theorem terminalCount_events :
    ∀ tree : Tree, terminalCount tree.events = (significant tree.leaves).length
  | leaf token => by
    cases h : token.isTrivia <;> simp [Tree.events, significant_cons, h]
  | node kind children => by
    have hentry : terminalCount (entry kind (allLeaves children)) = 0 := by
      rw [entry]
      cases (significant (allLeaves children)).head? <;> rfl
    simp [Tree.events, hentry, terminalCount_allEvents children]

theorem terminalCount_allEvents :
    ∀ trees : List Tree, terminalCount (allEvents trees) = (significant (allLeaves trees)).length
  | [] => rfl
  | tree :: trees => by
    simp [allEvents, terminalCount_events tree, terminalCount_allEvents trees]

end

end Tree

end GuardedQuery
