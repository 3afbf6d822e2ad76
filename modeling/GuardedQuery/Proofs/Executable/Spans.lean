import GuardedQuery.Proofs.Executable.Places

/-! # Ranges from token to token

What a document says is read off its significant tokens, so the ranges that are kept of it
start where one of these starts and stop where one of these stops.

- `ByteRange.Spans`: a range that reaches over a run of tokens.
- `Visit.ranges`: the ranges that a visitor can read off a visit.
- `Item.Composes.mem_ranges`: those of a node are its own, that of its first token, or come
  from its children.
- `Grammar.Derives.spanning`: the ranges of derived trees span their leaves.
- `Document.spans_of_mem_visits`: what follows for an accepted document.
-/

namespace GuardedQuery

/-! ## Runs of tokens -/

namespace ByteRange

/-- The range reaches from the first to the last token of a run. -/
def Spans (tokens : List Token) (range : ByteRange) : Prop :=
  ∃ run first last, run <:+: tokens ∧ run.head? = some first ∧ run.getLast? = some last ∧
    range = ⟨first.start, last.stop⟩

variable {tokens more : List Token} {range : ByteRange}

theorem Spans.mono (h : Spans tokens range) (hwithin : tokens <:+: more) : Spans more range := by
  obtain ⟨run, first, last, hrun, hends⟩ := h
  exact ⟨run, first, last, hrun.trans hwithin, hends⟩

/-- A token spans itself. -/
theorem spans_token {token : Token} (h : token ∈ tokens) : Spans tokens token.range := by
  obtain ⟨front, back, rfl⟩ := List.append_of_mem h
  refine ⟨[token], token, token, ⟨front, back, ?_⟩, rfl, rfl, rfl⟩
  rw [List.append_assoc]
  rfl

/-- The range starts and stops with a token. -/
theorem Spans.exists_tokens (h : Spans tokens range) :
    ∃ first ∈ tokens, ∃ last ∈ tokens, range = ⟨first.start, last.stop⟩ := by
  obtain ⟨run, first, last, hrun, hfirst, hlast, hrange⟩ := h
  exact ⟨first, hrun.subset (List.mem_of_head? hfirst), last,
    hrun.subset (List.mem_of_getLast? hlast), hrange⟩

/-- A range over significant tokens of a text is not empty. -/
theorem Spans.start_lt_stop {text : String} (h : Spans (significant (lex text)) range) :
    range.start < range.stop := by
  obtain ⟨run, first, last, hrun, hfirst, hlast, rfl⟩ := h
  have htiles := lex_tiles text
  obtain ⟨high, hlaid⟩ := (htiles.adjoin.spaced htiles.nonempty (Nat.le_refl 0)).laid
  have hhead : (run.map Token.range).head? = some first.range := by
    rw [List.head?_map, hfirst]
    rfl
  have hgetLast : (run.map Token.range).getLast? = some last.range := by
    rw [List.getLast?_map, hlast]
    rfl
  exact ((hlaid.sublist (hrun.sublist.map _)).hull hhead hgetLast).2.1

end ByteRange

open ByteRange (Spans)

/-! ## Ranges of items -/

def Visit.ranges : Visit → List ByteRange
  | document doc => doc.fragments.map (·.name.range)
  | operation o => o.range :: o.head.range :: (o.name.map Token.range).toList
  | fragment f => [f.range, f.name.range]
  | variableDefinition d => [d.range, d.target.range]
  | spread s => [s.range, s.name.range]
  | visit => [visit.range]

theorem Visit.range_mem_ranges {visit : Visit} (h : ∀ doc, visit ≠ .document doc) :
    visit.range ∈ visit.ranges := by
  cases visit with
  | document doc => exact absurd rfl (h doc)
  | _ => exact List.mem_cons_self

namespace Item

/-- The ranges that a visitor can read off an item.  A token has one, for it may be a name. -/
def ranges : Item → List ByteRange
  | token t => [t.range]
  | item => item.visits.flatMap Visit.ranges

variable {range own : ByteRange} {head : Token} {kind : NodeKind} {items : List Item} {item : Item}

theorem mem_ranges_of_mem_visits {visit : Visit} (hvisit : visit ∈ item.visits)
    (hrange : range ∈ visit.ranges) : range ∈ item.ranges := by
  have hmem := List.mem_flatMap_of_mem hvisit hrange
  cases item with
  | token t => cases hvisit
  | _ => exact hmem

theorem mem_flatMap_ranges_of_visits
    (h : range ∈ (items.flatMap visits).flatMap Visit.ranges) : range ∈ items.flatMap ranges := by
  obtain ⟨visit, hvisit, hrange⟩ := List.mem_flatMap.1 h
  obtain ⟨item, hitem, hvisit⟩ := List.mem_flatMap.1 hvisit
  exact List.mem_flatMap_of_mem hitem (mem_ranges_of_mem_visits hvisit hrange)

/-- The ranges that are shown at a node are its own, that of its first token, and some of
what its children say. -/
theorem Composes.mem_ranges_shown (h : Composes range head kind items item)
    (hown : own ∈ item.shown.flatMap Visit.ranges) :
    own = range ∨ own = head.range ∨ own ∈ items.flatMap ranges := by
  have hitem {part : Item} (hpart : part ∈ items) (hrange : own ∈ part.ranges) :
      own = range ∨ own = head.range ∨ own ∈ items.flatMap ranges :=
    .inr (.inr (List.mem_flatMap_of_mem hpart hrange))
  cases h with
  | shorthand set =>
    rcases List.mem_cons.1 hown with hown | hown
    · exact .inl hown
    · exact .inr (.inl (List.mem_singleton.1 hown))
  | @operation keyword name inputs directives set hkeyword hname =>
    rcases List.mem_cons.1 hown with hown | hown
    · exact .inl hown
    rcases List.mem_cons.1 hown with hown | hown
    · exact .inr (.inl hown)
    · cases name with
      | none => cases hown
      | some name => exact hitem (.tail _ List.mem_cons_self) hown
  | @fragment word name condition directives set hword hname =>
    rcases List.mem_cons.1 hown with hown | hown
    · exact .inl hown
    · exact hitem (.tail _ List.mem_cons_self) hown
  | variableDefinition target colon value directives =>
    rcases List.mem_cons.1 hown with hown | hown
    · exact .inl hown
    · cases List.mem_singleton.1 hown
      exact hitem List.mem_cons_self List.mem_cons_self
  | @fragmentSpread dots name directives hdots hname =>
    rcases List.mem_cons.1 hown with hown | hown
    · exact .inl hown
    · exact hitem (.tail _ List.mem_cons_self) hown
  | variableRef hdollar hname =>
    rcases List.mem_cons.1 hown with hown | hown
    · exact .inl hown
    · exact .inl (List.mem_singleton.1 hown)
  | selectionSet | field | inlineFragment | scalar | listValue | objectValue =>
    exact .inl (List.mem_singleton.1 hown)
  | _ => cases hown

/-- The ranges of a node are its own, that of its first token, and some of what its children
say. -/
theorem Composes.mem_ranges (h : Composes range head kind items item)
    (hown : own ∈ item.ranges) :
    own = range ∨ own = head.range ∨ own ∈ items.flatMap ranges := by
  have hranges : item.ranges = item.visits.flatMap Visit.ranges := by
    cases h <;> rfl
  rw [hranges, h.visits_eq, List.flatMap_append, List.mem_append] at hown
  rcases hown with hown | hown
  · exact h.mem_ranges_shown hown
  · split at hown
    · cases hown
    · exact .inr (.inr (mem_flatMap_ranges_of_visits hown))

end Item

/-! ## Derived trees -/

namespace Tree

def Spanning (trees : List Tree) : Prop :=
  ∀ range ∈ (items trees).flatMap Item.ranges, Spans (allLeaves trees) range

namespace Spanning

variable {trees more : List Tree}

theorem nil : Spanning [] :=
  fun _ hrange => absurd hrange List.not_mem_nil

theorem leaf (token : Token) : Spanning [.leaf token] := by
  intro range hrange
  cases List.mem_singleton.1 hrange
  exact ByteRange.spans_token List.mem_cons_self

theorem append (h : Spanning trees) (hmore : Spanning more) : Spanning (trees ++ more) := by
  intro range hrange
  rw [items_append, List.flatMap_append, List.mem_append] at hrange
  rw [allLeaves_append]
  rcases hrange with hrange | hrange
  · exact (h range hrange).mono (List.prefix_append _ _).isInfix
  · exact (hmore range hrange).mono (List.suffix_append _ _).isInfix

theorem node {kind : NodeKind} {constant : Bool} {children : List Tree}
    (hderives : Grammar.Derives (Grammar.production kind constant) children)
    (hkind : kind ≠ .document) (h : Spanning children) : Spanning [.node kind children] := by
  obtain ⟨first, last, item, hitem, hpart⟩ := hderives.exists_part hkind
  have hitems : items [.node kind children] = [item] := by
    rw [items, parts_cons, hpart]
    rfl
  have hfirst := map_first_part? (.node kind children)
  have hlast := map_last_part? (.node kind children)
  rw [hpart, leaves_node] at hfirst hlast
  intro range hrange
  rw [hitems, List.flatMap_singleton] at hrange
  rw [allLeaves_cons, leaves_node, allLeaves_nil, List.append_nil]
  rcases hitem.mem_ranges hrange with rfl | rfl | hrange
  · exact ⟨_, first, last, List.infix_rfl, hfirst.symm, hlast.symm, rfl⟩
  · exact ByteRange.spans_token (List.mem_of_head? hfirst.symm)
  · exact h range hrange

end Spanning

end Tree

/-- The ranges of derived trees span their leaves. -/
theorem Grammar.Derives.spanning {pattern : Pattern} {trees : List Tree}
    (h : Derives pattern trees) (hinner : pattern.isInner = true) : Tree.Spanning trees := by
  induction h with
  | empty | absent | done => exact .nil
  | token => exact .leaf _
  | rule h ih =>
    exact .node h (by simpa [Pattern.isInner] using hinner) (ih (production_isInner _ _))
  | left _ ih =>
    simp only [Pattern.isInner, Bool.and_eq_true] at hinner
    exact ih hinner.1
  | right _ ih =>
    simp only [Pattern.isInner, Bool.and_eq_true] at hinner
    exact ih hinner.2
  | present _ ih => exact ih hinner
  | both _ _ ihfirst ihsecond =>
    simp only [Pattern.isInner, Bool.and_eq_true] at hinner
    exact (ihfirst hinner.1).append (ihsecond hinner.2)
  | more _ _ ih ihmore => exact (ih hinner).append (ihmore hinner)

/-! ## Accepted documents -/

namespace Document

variable {limits : Limits} {source : Source} {document : Document}

/-- In an accepted document the ranges that can be read off a visit span significant tokens. -/
theorem spans_of_mem_visits (h : parse limits source = .ok document) :
    ∀ visit ∈ document.executable.visits, ∀ range ∈ visit.ranges,
      Spans (significant (lex source.text)) range := by
  obtain ⟨children, hderives, htokens, hvisits⟩ := exists_derivation h
  generalize document.executable = doc at hvisits ⊢
  have hspans : ∀ visit ∈ doc.definitions.flatMap Definition.visits, ∀ range ∈ visit.ranges,
      Spans (significant (lex source.text)) range := by
    intro visit hvisit range hrange
    rw [← hvisits] at hvisit
    rw [htokens]
    exact hderives.spanning (Grammar.production_isInner .document false) range
      (Item.mem_flatMap_ranges_of_visits (List.mem_flatMap_of_mem hvisit hrange))
  rw [doc.visits_eq, List.forall_mem_cons]
  refine ⟨fun range hrange => ?_, hspans⟩
  -- Of the document itself only the names of fragments are read, which its fragments show too.
  obtain ⟨fragment, hfragment, rfl⟩ := List.mem_map.1 hrange
  refine hspans (.fragment fragment) ?_ _ (.tail _ List.mem_cons_self)
  exact List.mem_flatMap_of_mem (Executable.mem_fragments.1 hfragment) List.mem_cons_self

end Document

end GuardedQuery
