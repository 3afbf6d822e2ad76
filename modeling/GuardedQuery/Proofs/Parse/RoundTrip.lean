import GuardedQuery.Proofs.Executable.Writing
import GuardedQuery.Proofs.Parse.Exactness

/-! # A document reads back as it was written

Whatever document is written, and whatever trivia stands between its tokens, the parse
without limits gives a document that says what was written.

- `Document.said_of_writes`: a document has one derivation, so it says one thing.
- `Document.parse_written`: written documents are read back.
-/

namespace GuardedQuery

open Grammar GuardedQuery.Tree

/-! ## Without places -/

theorem Operation.type_relocate (r : Relocation) (operation : Operation) :
    (operation.relocate r).type = operation.type := by
  rw [type, type, relocate, Option.map_map]
  rfl

def Definition.operation? : Definition → Option (Bool × OperationType)
  | .operation o => some (o.keyword.isSome, o.type)
  | .fragment _ => none

theorem Definition.operation?_relocate (r : Relocation) (definition : Definition) :
    (definition.relocate r).operation? = definition.operation? := by
  cases definition with
  | operation o =>
    rw [relocate, operation?, o.type_relocate, Operation.relocate, Option.isSome_map]
    rfl
  | fragment f => rfl

theorem Definition.filterMap_operation?_relocate (r : Relocation) (definitions : List Definition) :
    (definitions.map (Definition.relocate r)).filterMap operation? =
      definitions.filterMap operation? := by
  rw [List.filterMap_map]
  exact congrArg (List.filterMap · definitions) (funext (operation?_relocate r))

theorem Executable.map_operations (doc : Executable) :
    doc.operations.map (fun o => (o.keyword.isSome, o.type)) =
      doc.definitions.filterMap Definition.operation? := by
  rw [operations, List.map_filterMap]
  congr 1
  funext definition
  cases definition <;> rfl

theorem Written.Definition.operation?_read (definition : Written.Definition) :
    definition.read.operation? = definition.operation? := by
  cases definition with
  | shorthand set => rfl
  | operation type name inputs directives set => cases type <;> rfl
  | fragment name typeName directives set => rfl

theorem Written.Document.filterMap_operation?_read (document : Written.Document) :
    document.read.filterMap GuardedQuery.Definition.operation? = document.operations := by
  rw [read, List.filterMap_map]
  exact congrArg (List.filterMap · document.toList) (funext Written.Definition.operation?_read)

namespace Document

/-- The derivation of a document says whatever some derivation of its lexemes says. -/
theorem said_of_writes {children : List Tree} {lexemes : List Lexeme} {items : List Item}
    (h : Derives (production .document false) children)
    (hlexemes : (allLeaves children).map Token.lexeme = lexemes)
    (hwrites : Writes (production .document false) lexemes items) : said children = items := by
  obtain ⟨trees, htrees, hsame, rfl⟩ := hwrites
  have hleaves (trees : List Tree) : allLeaves (relocateAll .forget trees) =
      ((allLeaves trees).map Token.lexeme).map Lexeme.token := by
    rw [allLeaves_relocateAll, List.map_map]
    rfl
  have hequal : relocateAll .forget children = relocateAll .forget trees :=
    (h.relocate .forget).document_unique (htrees.relocate .forget) (by
      rw [hleaves, hleaves, hlexemes, hsame])
  rw [← said_relocateAll .forget children, hequal, said_relocateAll]

/-- A document reads back as it was written.  Every source whose significant tokens are
those of the written document parses without limits, and apart from places the document has
the definitions that were written, each operation with its keyword or without and with its
type. -/
theorem parse_written (written : Written.Document) {source : Source}
    (h : (significant (lex source.text)).map Token.lexeme = written.lexemes) :
    ∃ document, parse .trusted source = .ok document ∧
      document.executable.definitions.map (Definition.relocate .forget) = written.read ∧
      document.executable.operations.map (fun o => (o.keyword.isSome, o.type)) =
        written.operations := by
  have hwrites := written.writes
  have hdocument : IsDocument ((significant (lex source.text)).map Token.lexeme) := by
    obtain ⟨trees, htrees, hlexemes, -⟩ := hwrites
    exact ⟨.node .document trees, .rule htrees, by simpa [h] using hlexemes⟩
  obtain ⟨children, hderives, htokens⟩ := isDocument_iff.1 hdocument
  have hsaid := said_of_writes hderives (by rw [htokens, h]) hwrites
  have hitems : ((definitions children).map (Definition.relocate .forget)).map Item.definition =
      written.read.map .definition := by
    rw [← hsaid, Tree.said, hderives.items_document, List.map_map, List.map_map]
    rfl
  have hdefinitions : (definitions children).map (Definition.relocate .forget) = written.read := by
    have hchoose (definitions : List Definition) :
        (definitions.map Item.definition).filterMap Item.definition? = definitions :=
      Item.filterMap_map_self Item.definition? (fun _ => rfl) definitions
    rw [← hchoose (List.map _ _), hitems, hchoose]
  have hread := definitions_of_derives hderives htokens.symm
  refine ⟨_, parse_trusted_eq_ok_iff.2 ⟨children, hderives, htokens.symm, rfl⟩, ?_, ?_⟩
  · rw [hread, hdefinitions]
  · rw [Executable.map_operations, hread, ← Definition.filterMap_operation?_relocate .forget,
      hdefinitions, Written.Document.filterMap_operation?_read]

/-- A mutation called `on`, with a variable inside an object, a spread and its fragment. -/
theorem parse_written_mutation :
    let set (selection : Written.Selection) : Written.SelectionSet := .mk selection []
    let value : Written.Value false :=
      .object [.mk "k" (.list [.reference "v" rfl, .literal (.boolean true)])]
    let written : Written.Document :=
      ⟨.operation .mutation (some "on")
          (some ⟨⟨"v", .list (.named "Int" true) false, some (.list []), none⟩, []⟩) none
          (.mk (.field (some "a") "b" (some ⟨⟨"c", value⟩, []⟩) none none)
            [.spread ⟨"F", by decide⟩ (some ⟨⟨"d", none⟩, []⟩)]),
        [.fragment ⟨"F", by decide⟩ "T" none (set (.inline none none (set
          (.field none "on" none none none))))]⟩
    let source : Source := ⟨[⟨none, "mutation on($v:[Int!]=[],)\n\x7b a:b(c:\x7bk:[$v true]\x7d)" ++
      "...F@d\x7d # all\nfragment F on T\x7b...\x7bon\x7d\x7d", 0⟩], 87⟩
    ∃ document, parse .trusted source = .ok document ∧
      document.executable.definitions.map (Definition.relocate .forget) = written.read ∧
      document.executable.operations.map (fun o => (o.keyword.isSome, o.type)) =
        [(true, .mutation)] := by
  intro set value written source
  exact parse_written written (by decide +kernel)

end Document

end GuardedQuery
