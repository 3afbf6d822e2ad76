import GuardedQuery.Executable.Visit
import GuardedQuery.Validation.ByName
import GuardedQuery.Validation.Finding

/-! # Fragment usage

Every spread names a fragment that is defined, every fragment is reached from an
operation, and no fragment spreads itself.

- `Owner`: the definition that spreads and variables belong to.
- `SpreadGraph`: which fragment spreads which, and where.
- `SpreadGraph.cycles`: the spreads that close a cycle.
- `FragmentUsage`: what the rule knows.
-/

namespace GuardedQuery

inductive Owner where
  | nobody
  | operation
  | fragment (name : String)
deriving Repr, DecidableEq

abbrev SpreadGraph := ByName (List (String × ByteRange))

namespace SpreadGraph

def targets (graph : SpreadGraph) : ByName (List String) :=
  ⟨graph.entries.map fun (name, spreads) => (name, spreads.map (·.1))⟩

def cycle (path : List String) (target : String) (range : ByteRange) : Finding :=
  let via := (path.takeWhile (· != target)).reverse
  let within := "cannot spread fragment '" ++ target ++ "' within itself"
  { kind := .fragmentCycle, range
    message :=
      if via.isEmpty then within
      else within ++ " via " ++ String.intercalate ", " (via.map fun name => "'" ++ name ++ "'") }

/-- What is known while cycles are searched: the fragments that need no further search
and the findings, the latest first. -/
structure Search where
  done : List String := []
  found : List Finding := []

namespace Search

def finish (search : Search) (name : String) : Search :=
  { search with done := name :: search.done }

end Search

/-- Follows the spreads of the latest fragment on the path.  A spread of a fragment on the
path closes a cycle; any other is followed, unless that was done before. -/
def follow (graph : SpreadGraph) (path : List String) (search : Search) :
    List (String × ByteRange) → Search
  | [] => search
  | (target, range) :: rest =>
    if _new : target ∈ path then
      follow graph path { search with found := cycle path target range :: search.found } rest
    else if target ∈ search.done then follow graph path search rest
    else
      match _known : graph.get? target with
      | none => follow graph path (search.finish target) rest
      | some spreads =>
        -- The fragment is done only when all that it spreads is.
        let inner := follow graph (target :: path) search spreads
        follow graph path (inner.finish target) rest
termination_by spreads => (graph.names.countP (fun n => decide (n ∉ path)), spreads.length)
decreasing_by
  · exact Prod.Lex.right _ (by simp)
  · exact Prod.Lex.right _ (by simp)
  · exact Prod.Lex.right _ (by simp)
  · exact Prod.Lex.left _ _
      (ByName.countP_not_mem_cons_lt (ByName.mem_names_of_get? _known) _new)
  · exact Prod.Lex.right _ (by simp)

def cycles (graph : SpreadGraph) : List Finding :=
  let search := graph.entries.foldl (fun (search : Search) (name, spreads) =>
    if name ∈ search.done then search
    else (follow graph [name] search spreads).finish name) {}
  search.found.reverse

end SpreadGraph

structure FragmentUsage where
  defined : ByName ByteRange := {}
  fromOperations : List String := []
  graph : SpreadGraph := {}
  owner : Owner := .nobody
deriving Repr, DecidableEq

namespace FragmentUsage

def define (rule : FragmentUsage) (doc : Executable) : FragmentUsage :=
  let defined := doc.fragments.foldl
    (fun defined fragment => defined.insertNew fragment.name.text fragment.name.range)
    rule.defined
  { rule with defined }

def spread (rule : FragmentUsage) (name : Token) : FragmentUsage × List Finding :=
  let noted := match rule.owner with
    | .nobody => rule
    | .operation => { rule with fromOperations := name.text :: rule.fromOperations }
    | .fragment owner =>
      { rule with graph := rule.graph.update owner (· ++ [(name.text, name.range)]) }
  (noted, if rule.defined.contains name.text then [] else
    [{ kind := .undefinedFragment, range := name.range,
       message := "undefined fragment '" ++ name.text ++ "'" }])

def unused (rule : FragmentUsage) : List Finding :=
  let reached := rule.graph.targets.reach rule.fromOperations.reverse
  (rule.defined.entries.filter fun (name, _) => !reached.contains name).map fun (name, range) =>
    { kind := .unusedFragment, range, message := "fragment '" ++ name ++ "' is never used" }

def visit (rule : FragmentUsage) : Visit → FragmentUsage × List Finding
  | .document doc => (rule.define doc, [])
  | .operation _ => ({ rule with owner := .operation }, [])
  | .fragment f =>
    ({ rule with graph := rule.graph.insertNew f.name.text [], owner := .fragment f.name.text }, [])
  | .spread s => rule.spread s.name
  | _ => (rule, [])

def leave (rule : FragmentUsage) : List Finding :=
  rule.unused ++ rule.graph.cycles

end FragmentUsage

end GuardedQuery
