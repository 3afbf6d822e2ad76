import GuardedQuery.Proofs.Validation.Names
import GuardedQuery.Validation.FragmentUsage
import Mathlib.Data.List.Chain
import Mathlib.Data.List.Count

/-! # The search for cycles

The search follows spreads depth first.  A fragment is done when all that it spreads is done
or closes a cycle, so what is done can be ordered by the spreads that are not reported, and
each spread is looked at once.

- `SpreadGraph.Spread`: a spread and where it stands.
- `SpreadGraph.exists_follow`: what a search adds to what is done and found.
- `SpreadGraph.Settled`: done fragments in an order that unreported spreads keep to.
- `SpreadGraph.Closes`: a finding that closes a cycle.
- `SpreadGraph.closes_of_mem_cycles`, `SpreadGraph.acyclic_of_cycles`,
  `SpreadGraph.nodup_cycles`: what is found, and that it is enough.
-/

namespace GuardedQuery

namespace SpreadGraph

variable {graph : SpreadGraph} {path : List String} {search : Search}
  {spreads : List (String × ByteRange)}

def Spread (graph : SpreadGraph) (owner target : String) (range : ByteRange) : Prop :=
  ∃ spreads, graph.get? owner = some spreads ∧ (target, range) ∈ spreads

def Leads (graph : SpreadGraph) (owner target : String) : Prop :=
  ∃ range, graph.Spread owner target range

/-! ## What a search adds -/

def places (graph : SpreadGraph) (names : List String) : List ByteRange :=
  names.flatMap fun name => ((graph.get? name).getD []).map (·.2)

theorem places_append (graph : SpreadGraph) (names more : List String) :
    graph.places (names ++ more) = graph.places names ++ graph.places more :=
  List.flatMap_append

theorem places_cons_of_get? {name : String} (h : graph.get? name = some spreads)
    (names : List String) :
    graph.places (name :: names) = spreads.map (·.2) ++ graph.places names := by
  rw [places, List.flatMap_cons, h, Option.getD_some, places]

theorem places_cons_of_get?_eq_none {name : String} (h : graph.get? name = none)
    (names : List String) : graph.places (name :: names) = graph.places names := by
  rw [places, List.flatMap_cons, h, Option.getD_none, List.map_nil, List.nil_append, places]

/-- What the search adds to what is done and found: new names, none of them on the path, and
findings for the given spreads and those of the new names, each looked at once. -/
structure Adds (graph : SpreadGraph) (path : List String) (spreads : List (String × ByteRange))
    (before after : Search) (names : List String) (findings : List Finding) : Prop where
  done_eq : after.done = names ++ before.done
  found_eq : after.found = findings ++ before.found
  nodup : names.Nodup
  new : ∀ name ∈ names, name ∉ path ∧ name ∉ before.done
  once : ∀ range, (findings.map (·.range)).count range ≤
    (spreads.map (·.2)).count range + (graph.places names).count range

namespace Adds

variable {before after between : Search} {names more : List String}
  {findings others : List Finding} {target : String} {range : ByteRange}
  {rest : List (String × ByteRange)}

theorem nil : Adds graph path [] search search [] [] where
  done_eq := rfl
  found_eq := rfl
  nodup := List.nodup_nil
  new _ hname := absurd hname List.not_mem_nil
  once _ := by simp

/-- A spread that closes a cycle adds its finding. -/
theorem report
    (h : Adds graph path rest { before with found := cycle path target range :: before.found }
      after names findings) :
    Adds graph path ((target, range) :: rest) before after names
      (findings ++ [cycle path target range]) where
  done_eq := h.done_eq
  found_eq := by rw [h.found_eq, List.append_assoc, List.singleton_append]
  nodup := h.nodup
  new := h.new
  once place := by
    have honce := h.once place
    simp only [List.map_append, List.count_append, List.map_cons, List.map_nil,
      List.count_cons, List.count_nil, cycle] at honce ⊢
    omega

/-- A spread that leads to what is done adds nothing. -/
theorem skip (h : Adds graph path rest before after names findings) :
    Adds graph path ((target, range) :: rest) before after names findings where
  done_eq := h.done_eq
  found_eq := h.found_eq
  nodup := h.nodup
  new := h.new
  once place := by
    have honce := h.once place
    simp only [List.map_cons, List.count_cons] at honce ⊢
    omega

/-- A name is finished that the graph does not know. -/
theorem finish_unknown (h : Adds graph path rest (before.finish target) after names findings)
    (hnew : target ∉ path ∧ target ∉ before.done) (hknown : graph.get? target = none) :
    Adds graph path ((target, range) :: rest) before after (names ++ [target]) findings where
  done_eq := by
    rw [h.done_eq, Search.finish, List.append_assoc, List.singleton_append]
  found_eq := h.found_eq
  nodup := by
    apply h.nodup.append (List.nodup_singleton target)
    intro name hname htarget
    exact (h.new name hname).2 (List.mem_singleton.1 htarget ▸ List.mem_cons_self)
  new name hname := by
    rcases List.mem_append.1 hname with hname | hname
    · obtain ⟨hpath, hbefore⟩ := h.new name hname
      exact ⟨hpath, fun hdone => hbefore (List.mem_cons_of_mem _ hdone)⟩
    · rw [List.mem_singleton.1 hname]
      exact hnew
  once place := by
    have honce := h.once place
    rw [places_append, places_cons_of_get?_eq_none hknown]
    simp only [List.map_cons, List.count_cons, List.count_append] at honce ⊢
    omega

/-- A name is finished after the search through its own spreads. -/
theorem finish (hinner : Adds graph (target :: path) spreads before between names findings)
    (hnew : target ∉ path ∧ target ∉ before.done) (hknown : graph.get? target = some spreads)
    (h : Adds graph path rest (between.finish target) after more others) :
    Adds graph path ((target, range) :: rest) before after (more ++ target :: names)
      (others ++ findings) where
  done_eq := by
    rw [h.done_eq, Search.finish, hinner.done_eq]
    simp
  found_eq := by rw [h.found_eq, Search.finish, hinner.found_eq, List.append_assoc]
  nodup := by
    -- Names that come later are not done yet, and the target is not when its names come.
    have hnames : (target :: names).Nodup :=
      List.nodup_cons.2 ⟨fun hname => (hinner.new target hname).1 List.mem_cons_self, hinner.nodup⟩
    apply h.nodup.append hnames
    intro name hname htarget
    apply (h.new name hname).2
    rw [Search.finish, hinner.done_eq, ← List.cons_append]
    exact List.mem_append_left _ htarget
  new name hname := by
    rcases List.mem_append.1 hname with hname | hname
    · obtain ⟨hpath, hbefore⟩ := h.new name hname
      refine ⟨hpath, fun hdone => hbefore ?_⟩
      rw [Search.finish, hinner.done_eq]
      exact List.mem_cons_of_mem _ (List.mem_append_right _ hdone)
    · rcases List.mem_cons.1 hname with rfl | hname
      · exact hnew
      · obtain ⟨hpath, hbefore⟩ := hinner.new name hname
        exact ⟨fun hmem => hpath (List.mem_cons_of_mem _ hmem), hbefore⟩
  once place := by
    have hfirst := hinner.once place
    have hsecond := h.once place
    rw [places_append, places_cons_of_get? hknown]
    simp only [List.map_cons, List.map_append, List.count_cons, List.count_append]
      at hfirst hsecond ⊢
    omega

end Adds

theorem exists_follow (graph : SpreadGraph) (path : List String) (search : Search)
    (spreads : List (String × ByteRange)) :
    ∃ names findings,
      Adds graph path spreads search (follow graph path search spreads) names findings := by
  fun_induction follow graph path search spreads with
  | case1 path search => exact ⟨[], [], .nil⟩
  | case2 path search target range rest hcycle ih =>
    obtain ⟨names, findings, hadds⟩ := ih
    exact ⟨_, _, hadds.report⟩
  | case3 path search target range rest hnew hdone ih =>
    obtain ⟨names, findings, hadds⟩ := ih
    exact ⟨_, _, hadds.skip⟩
  | case4 path search target range rest hnew hdone hknown ih =>
    obtain ⟨names, findings, hadds⟩ := ih
    exact ⟨_, _, hadds.finish_unknown ⟨hnew, hdone⟩ hknown⟩
  | case5 path search target range rest hnew hdone spreads hknown inner ihinner ih =>
    obtain ⟨names, findings, hinner⟩ := ihinner
    obtain ⟨more, others, hadds⟩ := ih
    exact ⟨_, _, hinner.finish ⟨hnew, hdone⟩ hknown hadds⟩

theorem done_subset_follow (graph : SpreadGraph) (path : List String) (search : Search)
    (spreads : List (String × ByteRange)) :
    search.done ⊆ (follow graph path search spreads).done := by
  obtain ⟨names, findings, hadds⟩ := exists_follow graph path search spreads
  rw [hadds.done_eq]
  exact List.subset_append_right names search.done

theorem found_subset_follow (graph : SpreadGraph) (path : List String) (search : Search)
    (spreads : List (String × ByteRange)) :
    search.found ⊆ (follow graph path search spreads).found := by
  obtain ⟨names, findings, hadds⟩ := exists_follow graph path search spreads
  rw [hadds.found_eq]
  exact List.subset_append_right findings search.found

/-! ## The order of what is done -/

def Reported (found : List Finding) (range : ByteRange) : Prop :=
  ∃ finding ∈ found, finding.range = range

def Covered (found : List Finding) (done : List String) (target : String) (range : ByteRange) :
    Prop :=
  target ∈ done ∨ Reported found range

theorem Covered.mono {found more : List Finding} {done others : List String} {target : String}
    {range : ByteRange} (h : Covered found done target range) (hfound : found ⊆ more)
    (hdone : done ⊆ others) : Covered more others target range := by
  rcases h with h | ⟨finding, hfinding, hrange⟩
  · exact .inl (hdone h)
  · exact .inr ⟨finding, hfound hfinding, hrange⟩

/-- Every name spreads only what comes behind it, unless the spread is reported. -/
def Settled (graph : SpreadGraph) (found : List Finding) : List String → Prop
  | [] => True
  | name :: rest =>
    (∀ target range, graph.Spread name target range → Covered found rest target range) ∧
      Settled graph found rest

theorem Settled.mono {found more : List Finding} {done : List String}
    (h : graph.Settled found done) (hfound : found ⊆ more) : graph.Settled more done := by
  induction done with
  | nil => trivial
  | cons name rest ih =>
    refine ⟨fun target range hspread => ?_, ih h.2⟩
    exact (h.1 target range hspread).mono hfound (List.Subset.refl rest)

/-- A name is settled when its spreads are done with. -/
theorem Settled.cons {found : List Finding} {done : List String} {name : String}
    (h : graph.Settled found done) (hknown : graph.get? name = some spreads)
    (hcovered : ∀ spread ∈ spreads, Covered found done spread.1 spread.2) :
    graph.Settled found (name :: done) := by
  refine ⟨fun target range hspread => ?_, h⟩
  obtain ⟨others, hothers, hmem⟩ := hspread
  rw [hknown] at hothers
  cases hothers
  exact hcovered (target, range) hmem

/-- A search keeps what is done in order, and done with is every spread that it follows. -/
theorem settled_follow (path : List String) (spreads : List (String × ByteRange))
    (h : graph.Settled search.found search.done) :
    let after := follow graph path search spreads
    graph.Settled after.found after.done ∧
      ∀ spread ∈ spreads, Covered after.found after.done spread.1 spread.2 := by
  fun_induction follow graph path search spreads with
  | case1 path search => exact ⟨h, fun _ hspread => absurd hspread List.not_mem_nil⟩
  | case2 path search target range rest hcycle ih =>
    obtain ⟨hsettled, hcovered⟩ := ih (h.mono (List.subset_cons_self _ _))
    refine ⟨hsettled, List.forall_mem_cons.2 ⟨.inr ⟨cycle path target range, ?_, rfl⟩, hcovered⟩⟩
    exact found_subset_follow graph path _ rest List.mem_cons_self
  | case3 path search target range rest hnew hdone ih =>
    obtain ⟨hsettled, hcovered⟩ := ih h
    refine ⟨hsettled, List.forall_mem_cons.2 ⟨.inl ?_, hcovered⟩⟩
    exact done_subset_follow graph path search rest hdone
  | case4 path search target range rest hnew hdone hknown ih =>
    have hfinish : graph.Settled (search.finish target).found (search.finish target).done := by
      refine ⟨fun other place hspread => ?_, h⟩
      obtain ⟨spreads, hspreads, -⟩ := hspread
      rw [hknown] at hspreads
      cases hspreads
    obtain ⟨hsettled, hcovered⟩ := ih hfinish
    refine ⟨hsettled, List.forall_mem_cons.2 ⟨.inl ?_, hcovered⟩⟩
    exact done_subset_follow graph path _ rest List.mem_cons_self
  | case5 path search target range rest hnew hdone spreads hknown inner ihinner ih =>
    obtain ⟨hinner, htarget⟩ := ihinner h
    obtain ⟨hsettled, hcovered⟩ := ih (hinner.cons hknown htarget)
    refine ⟨hsettled, List.forall_mem_cons.2 ⟨.inl ?_, hcovered⟩⟩
    exact done_subset_follow graph path _ rest List.mem_cons_self

def Unreported (graph : SpreadGraph) (found : List Finding) (owner target : String) : Prop :=
  ∃ range, graph.Spread owner target range ∧ ¬Reported found range

theorem Settled.acyclic {found : List Finding} {done : List String}
    (h : graph.Settled found done) :
    ∀ name ∈ done, ¬Relation.TransGen (graph.Unreported found) name name := by
  induction done with
  | nil => exact fun _ hname => absurd hname List.not_mem_nil
  | cons first rest ih =>
    refine List.forall_mem_cons.2 ⟨fun hcycle => ?_, ih h.2⟩
    -- The next name on the cycle comes behind the first one, and the cycle runs through it.
    obtain ⟨next, hfirst, hback⟩ := Relation.TransGen.head'_iff.1 hcycle
    have hcycle' : Relation.TransGen (graph.Unreported found) next next :=
      Relation.TransGen.tail' hback hfirst
    obtain ⟨range, hspread, hreported⟩ := hfirst
    rcases h.1 next range hspread with hnext | hnext
    · exact ih h.2 next hnext hcycle'
    · exact hreported hnext

/-! ## What is found -/

/-- The finding at a spread of `target` from where a way leads back through `via`. -/
def closing (target : String) (via : List String) (range : ByteRange) : Finding where
  kind := .fragmentCycle
  range := range
  message := "cannot spread fragment '" ++ target ++ "' within itself" ++
    if via.isEmpty then "" else
      " via " ++ String.intercalate ", " (via.map fun name => "'" ++ name ++ "'")

/-- The finding is at a spread of `target` by `owner` and spells the way from there back to
`owner`. -/
def Closes (graph : SpreadGraph) (finding : Finding) : Prop :=
  ∃ owner target range via, graph.Spread owner target range ∧
    (target :: via).IsChain graph.Leads ∧ (target :: via).getLast? = some owner ∧
    (via = [] ↔ owner = target) ∧ finding = closing target via range

theorem takeWhile_ne_append_prefix {target : String} (h : target ∈ path) :
    path.takeWhile (· != target) ++ [target] <+: path := by
  induction path with
  | nil => cases h
  | cons name path ih =>
    by_cases hname : name = target
    · simp [hname]
    · have htarget : target ∈ path := (List.mem_cons.1 h).resolve_left (Ne.symm hname)
      rw [List.takeWhile_cons_of_pos (by simpa using hname), List.cons_append]
      exact List.cons_prefix_cons.2 ⟨rfl, ih htarget⟩

/-- A spread of a name on the path closes a cycle. -/
theorem closes_cycle {owner target : String} {range : ByteRange} (howner : path.head? = some owner)
    (hpath : path.IsChain fun later earlier => graph.Leads earlier later)
    (hspread : graph.Spread owner target range) (htarget : target ∈ path) :
    graph.Closes (cycle path target range) := by
  have hprefix := takeWhile_ne_append_prefix htarget
  have hback : target :: (path.takeWhile (· != target)).reverse =
      (path.takeWhile (· != target) ++ [target]).reverse := by simp
  refine ⟨owner, target, range, (path.takeWhile (· != target)).reverse, hspread, ?_, ?_, ?_, ?_⟩
  · rw [hback, List.isChain_reverse]
    exact hpath.prefix hprefix
  · rw [hback, List.getLast?_reverse]
    obtain ⟨rest, hrest⟩ := hprefix
    have hhead := congrArg List.head? hrest
    rw [List.head?_append_of_ne_nil _ (by simp), howner] at hhead
    exact hhead
  · obtain ⟨earlier, rfl⟩ := List.head?_eq_some_iff.1 howner
    by_cases hself : owner = target <;> simp [hself]
  · rw [cycle, closing]
    split
    next => rw [String.append_empty]
    next =>
      rw [Finding.mk.injEq]
      exact ⟨rfl, rfl, String.append_assoc⟩

theorem spread_of_head? {name : String} (h : graph.get? name = some spreads) :
    ∀ owner ∈ (name :: path).head?, ∀ spread ∈ spreads, graph.Spread owner spread.1 spread.2 := by
  rintro _ ⟨⟩ spread hspread
  exact ⟨spreads, h, hspread⟩

/-- A search finds spreads that close a cycle. -/
theorem closes_follow (hpath : path.IsChain fun later earlier => graph.Leads earlier later)
    (hspreads : ∀ owner ∈ path.head?, ∀ spread ∈ spreads, graph.Spread owner spread.1 spread.2)
    (h : ∀ finding ∈ search.found, graph.Closes finding) :
    ∀ finding ∈ (follow graph path search spreads).found, graph.Closes finding := by
  have hrest {path : List String} {target : String} {range : ByteRange}
      {rest : List (String × ByteRange)}
      (h : ∀ owner ∈ path.head?, ∀ spread ∈ (target, range) :: rest,
        graph.Spread owner spread.1 spread.2) :
      ∀ owner ∈ path.head?, ∀ spread ∈ rest, graph.Spread owner spread.1 spread.2 :=
    fun owner howner => (List.forall_mem_cons.1 (h owner howner)).2
  fun_induction follow graph path search spreads with
  | case1 => exact h
  | case2 path search target range rest hcycle ih =>
    apply ih hpath (hrest hspreads)
    refine List.forall_mem_cons.2 ⟨?_, h⟩
    have hnonempty : path ≠ [] := List.ne_nil_of_mem hcycle
    have howner := List.head?_eq_some_head hnonempty
    exact closes_cycle howner hpath (hspreads _ howner _ List.mem_cons_self) hcycle
  | case3 path search target range rest hnew hdone ih => exact ih hpath (hrest hspreads) h
  | case4 path search target range rest hnew hdone hknown ih =>
    exact ih hpath (hrest hspreads) h
  | case5 path search target range rest hnew hdone spreads hknown inner ihinner ih =>
    have hlonger : (target :: path).IsChain fun later earlier => graph.Leads earlier later := by
      refine List.isChain_cons.2 ⟨fun owner howner => ?_, hpath⟩
      exact ⟨range, hspreads owner howner _ List.mem_cons_self⟩
    exact ih hpath (hrest hspreads) (ihinner hlonger (spread_of_head? hknown) h)

/-! ## All cycles -/

def searchFrom (graph : SpreadGraph) (search : Search)
    (entry : String × List (String × ByteRange)) : Search :=
  if entry.1 ∈ search.done then search
  else (follow graph [entry.1] search entry.2).finish entry.1

theorem cycles_eq (graph : SpreadGraph) :
    graph.cycles = (graph.entries.foldl graph.searchFrom {}).found.reverse := rfl

/-- Done names are in order and come once, and the findings close cycles, at most one for
each spread of a done name. -/
structure Sound (graph : SpreadGraph) (search : Search) : Prop where
  settled : graph.Settled search.found search.done
  closes : ∀ finding ∈ search.found, graph.Closes finding
  nodup : search.done.Nodup
  once : ∀ range, (search.found.map (·.range)).count range ≤ (graph.places search.done).count range

theorem sound_searchFrom (h : graph.Sound search) {name : String}
    (hknown : graph.get? name = some spreads) :
    graph.Sound (graph.searchFrom search (name, spreads)) := by
  rw [searchFrom]
  split
  next => exact h
  next hdone =>
    obtain ⟨names, findings, hadds⟩ := graph.exists_follow [name] search spreads
    obtain ⟨hsettled, hcovered⟩ := settled_follow [name] spreads h.settled
    constructor
    · exact hsettled.cons hknown hcovered
    · exact closes_follow (List.isChain_singleton name) (spread_of_head? hknown) h.closes
    · change (name :: (follow graph [name] search spreads).done).Nodup
      rw [hadds.done_eq, List.nodup_cons, List.mem_append]
      constructor
      · rintro (hname | hname)
        · exact (hadds.new name hname).1 List.mem_cons_self
        · exact hdone hname
      · exact hadds.nodup.append h.nodup fun other hother => (hadds.new other hother).2
    · intro range
      have hbefore := h.once range
      have hnow := hadds.once range
      change ((follow graph [name] search spreads).found.map _).count range ≤
        (graph.places (name :: (follow graph [name] search spreads).done)).count range
      rw [hadds.done_eq, hadds.found_eq, places_cons_of_get? hknown, places_append, List.map_append,
        List.count_append, List.count_append, List.count_append]
      omega

theorem done_subset_searchFrom (graph : SpreadGraph) (search : Search)
    (entry : String × List (String × ByteRange)) :
    search.done ⊆ (graph.searchFrom search entry).done := by
  rw [searchFrom]
  split
  next => exact List.Subset.refl _
  next =>
    exact List.Subset.trans (done_subset_follow graph _ search _) (List.subset_cons_self _ _)

theorem mem_done_searchFrom (graph : SpreadGraph) (search : Search)
    (entry : String × List (String × ByteRange)) :
    entry.1 ∈ (graph.searchFrom search entry).done := by
  rw [searchFrom]
  split
  next hdone => exact hdone
  next => exact List.mem_cons_self

/-- After searches from some entries their names are done. -/
theorem sound_foldl_searchFrom {entries : List (String × List (String × ByteRange))}
    (hknown : ∀ entry ∈ entries, graph.get? entry.1 = some entry.2) (h : graph.Sound search) :
    graph.Sound (entries.foldl graph.searchFrom search) ∧
      search.done ⊆ (entries.foldl graph.searchFrom search).done ∧
      ∀ entry ∈ entries, entry.1 ∈ (entries.foldl graph.searchFrom search).done := by
  induction entries generalizing search with
  | nil => exact ⟨h, List.Subset.refl _, fun _ hentry => absurd hentry List.not_mem_nil⟩
  | cons entry entries ih =>
    rw [List.forall_mem_cons] at hknown
    obtain ⟨hsound, hsubset, hdone⟩ := ih hknown.2 (sound_searchFrom h hknown.1)
    refine ⟨hsound, List.Subset.trans (done_subset_searchFrom graph search entry) hsubset,
      List.forall_mem_cons.2 ⟨?_, hdone⟩⟩
    exact hsubset (mem_done_searchFrom graph search entry)

/-- At the end of the search every name of the graph is done. -/
theorem exists_search (hnodup : graph.names.Nodup) :
    ∃ search : Search, graph.cycles = search.found.reverse ∧ graph.Sound search ∧
      ∀ name ∈ graph.names, name ∈ search.done := by
  have hempty : graph.Sound {} :=
    ⟨trivial, fun _ h => absurd h List.not_mem_nil, List.nodup_nil, fun _ => Nat.le_refl _⟩
  obtain ⟨hsound, -, hdone⟩ := sound_foldl_searchFrom
    (fun entry hentry => (ByName.mem_entries_iff hnodup).1 hentry) hempty
  refine ⟨_, graph.cycles_eq, hsound, fun name hname => ?_⟩
  obtain ⟨entry, hentry, rfl⟩ := List.mem_map.1 hname
  exact hdone entry hentry

/-- Every finding closes a cycle. -/
theorem closes_of_mem_cycles (hnodup : graph.names.Nodup) :
    ∀ finding ∈ graph.cycles, graph.Closes finding := by
  obtain ⟨search, hcycles, hsound, -⟩ := exists_search hnodup
  intro finding hfinding
  rw [hcycles, List.mem_reverse] at hfinding
  exact hsound.closes finding hfinding

/-- Without the spreads that are reported there is no cycle. -/
theorem acyclic_of_cycles (hnodup : graph.names.Nodup) (name : String) :
    ¬Relation.TransGen (graph.Unreported graph.cycles) name name := by
  obtain ⟨search, hcycles, hsound, hdone⟩ := exists_search hnodup
  have hsettled : graph.Settled graph.cycles search.done := by
    apply hsound.settled.mono
    rw [hcycles]
    exact fun finding hfinding => List.mem_reverse.2 hfinding
  intro hcycle
  obtain ⟨next, ⟨range, ⟨spreads, hspreads, -⟩, -⟩, -⟩ := Relation.TransGen.head'_iff.1 hcycle
  exact hsettled.acyclic name (hdone name (ByName.mem_names_of_get? hspreads)) hcycle

/-- If no two spreads stand at one place, then no place is reported twice. -/
theorem nodup_cycles (hnodup : graph.names.Nodup)
    (hplaces : ∀ names : List String, names.Nodup → (graph.places names).Nodup) :
    (graph.cycles.map (·.range)).Nodup := by
  obtain ⟨search, hcycles, hsound, -⟩ := exists_search hnodup
  rw [hcycles, List.map_reverse, List.nodup_reverse, List.nodup_iff_count_le_one]
  intro range
  have honce := List.nodup_iff_count_le_one.1 (hplaces search.done hsound.nodup) range
  exact Nat.le_trans (hsound.once range) honce

/-- A finding lies on a cycle. -/
theorem Closes.exists_cycle {finding : Finding} (h : graph.Closes finding) :
    ∃ name, Relation.TransGen graph.Leads name name := by
  obtain ⟨owner, target, range, via, hspread, hchain, hlast, -, -⟩ := h
  have hback := List.relationReflTransGen_of_exists_isChain_cons via hchain
    (Option.some.inj (List.getLast?_eq_some_getLast _ ▸ hlast))
  exact ⟨owner, Relation.TransGen.head' ⟨range, hspread⟩ hback⟩

/-- Nothing is found if and only if there is no cycle. -/
theorem cycles_eq_nil_iff (hnodup : graph.names.Nodup) :
    graph.cycles = [] ↔ ∀ name, ¬Relation.TransGen graph.Leads name name := by
  constructor
  · intro hnil name hcycle
    apply acyclic_of_cycles hnodup name
    refine Relation.TransGen.mono ?_ name name hcycle
    rintro owner target ⟨range, hspread⟩
    refine ⟨range, hspread, ?_⟩
    rintro ⟨finding, hfinding, -⟩
    rw [hnil] at hfinding
    cases hfinding
  · intro hacyclic
    apply List.eq_nil_iff_forall_not_mem.2
    intro finding hfinding
    obtain ⟨name, hcycle⟩ := (closes_of_mem_cycles hnodup finding hfinding).exists_cycle
    exact hacyclic name hcycle

end SpreadGraph

end GuardedQuery
