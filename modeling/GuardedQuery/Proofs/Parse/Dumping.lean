import GuardedQuery.Proofs.Parse.Lossless
import GuardedQuery.Proofs.Parse.Trivia
import GuardedQuery.Proofs.Text.Quoting

/-! # Dumps are faithful

A dump shows each token on a line of its own, its text between quotes.  So the tokens can be
read off it, and nothing else is needed: the tokens of a document decide on its tree.

- `Text.IsPlain`: text without quotes and line ends, such as all of a line but the text of its
  token.
- `Tree.filterMap_readLine?_dumpLines`: the lines of tokens among the lines of a dump.
- `Tree.map_tokenLine_eq_of_dump_eq`: equal dumps show tokens on equal lines.
- `Document.dump_faithful`: plain dumps show the significant tokens, full dumps the text.
-/

namespace GuardedQuery

/-! ## Labels and places -/

namespace Text

def IsPlain (text : String) : Prop :=
  '"' ∉ text.toList ∧ '\n' ∉ text.toList

instance (text : String) : Decidable (IsPlain text) :=
  inferInstanceAs (Decidable (_ ∧ _))

theorem IsPlain.append {a b : String} (ha : IsPlain a) (hb : IsPlain b) : IsPlain (a ++ b) := by
  simp only [IsPlain, String.toList_append, List.mem_append, not_or]
  exact ⟨⟨ha.1, hb.1⟩, ha.2, hb.2⟩

theorem isPlain_toString (n : Nat) : IsPlain (toString n) := by
  have hdigit {c : Char} (h : c ∈ (toString n).toList) : c.isDigit = true := by
    rw [Nat.toString_eq_ofList_toDigits, String.toList_ofList] at h
    exact Nat.isDigit_of_mem_toDigits (by decide) (by decide) h
  exact ⟨fun h => absurd (hdigit h) (by decide), fun h => absurd (hdigit h) (by decide)⟩

theorem isPlain_indentation (level : Nat) : IsPlain (indentation level) := by
  simp [IsPlain, indentation]

end Text

open Text

theorem TokenKind.isPlain_label (kind : TokenKind) : IsPlain kind.label := by
  cases kind <;> decide +kernel

theorem NodeKind.isPlain_label (kind : NodeKind) : IsPlain kind.label := by
  cases kind <;> decide +kernel

theorem TokenKind.blank_notMem_label (kind : TokenKind) : ' ' ∉ kind.label.toList := by
  cases kind <;> decide +kernel

theorem TokenKind.label_injective : Function.Injective TokenKind.label := by
  intro kind other h
  have hkind := SyntaxKind.ofLabel?_label (.token kind)
  have hother := SyntaxKind.ofLabel?_label (.token other)
  simp only [SyntaxKind.label, h] at hkind hother
  simpa using hkind.symm.trans hother

namespace DumpStyle

variable {style : DumpStyle}

def shows (style : DumpStyle) (token : Token) : Bool :=
  style.trivia || !token.isTrivia

theorem isPlain_span (style : DumpStyle) (range : ByteRange) : IsPlain (style.span range) := by
  rw [span]
  split
  · have hdots : IsPlain ".." := by decide +kernel
    have hopen : IsPlain " [" := by decide +kernel
    have hclose : IsPlain "]" := by decide +kernel
    exact (hopen.append (((isPlain_toString _).append hdots).append (isPlain_toString _))).append
      hclose
  · decide +kernel

theorem isPlain_nodeLine (style : DumpStyle) (tree : Tree) (kind : NodeKind) :
    IsPlain (style.nodeLine tree kind) :=
  kind.isPlain_label.append (style.isPlain_span _)

/-- The kind and the place of a token stand in front of its text. -/
theorem isPlain_front (style : DumpStyle) (token : Token) :
    IsPlain (token.kind.label ++ style.span token.range ++ " ") :=
  (token.kind.isPlain_label.append (style.isPlain_span _)).append (by decide +kernel)

theorem newline_notMem_tokenLine (style : DumpStyle) (token : Token) :
    '\n' ∉ (style.tokenLine token).toList := by
  rw [tokenLine, String.toList_append, List.mem_append, not_or]
  exact ⟨(style.isPlain_front token).2, newline_notMem_quoted token.text⟩

theorem toList_tokenLine (style : DumpStyle) (token : Token) :
    (style.tokenLine token).toList =
      (token.kind.label ++ style.span token.range ++ " ").toList ++
        '"' :: (token.text.toList.flatMap quotedChar ++ ['"']) := by
  rw [tokenLine, String.toList_append, toList_quoted]

/-- The line of a token decides on its text. -/
theorem tokenLine_inj {token other : Token} (h : style.tokenLine token = style.tokenLine other) :
    token.kind.label ++ style.span token.range ++ " " =
        other.kind.label ++ style.span other.range ++ " " ∧
      token.text = other.text := by
  have hlist := congrArg String.toList h
  rw [toList_tokenLine, toList_tokenLine] at hlist
  obtain ⟨hfront, htext⟩ :=
    append_cons_inj (style.isPlain_front token).1 (style.isPlain_front other).1 hlist
  exact ⟨String.toList_inj.mp hfront, String.toList_inj.mp (flatMap_quotedChar_inj htext)⟩

/-- Without positions it decides on its kind as well. -/
theorem lexeme_eq_of_tokenLine_eq {token other : Token}
    (h : tokenLine {} token = tokenLine {} other) : token.lexeme = other.lexeme := by
  obtain ⟨hfront, htext⟩ := tokenLine_inj h
  have hlabel : token.kind.label = other.kind.label := by
    have hlist := congrArg String.toList hfront
    simp only [span, String.toList_append] at hlist
    exact String.toList_inj.mp (by simpa using hlist)
  rw [Token.lexeme, Token.lexeme, TokenKind.label_injective hlabel, htext]

end DumpStyle

/-! ## Lines -/

namespace Tree

/-- The line of a token without its indentation; other lines hold no quotes. -/
def readLine? (line : String) : Option (List Char) :=
  if '"' ∈ line.toList then some (line.toList.dropWhile (· = ' ')) else none

theorem readLine?_nodeLine (style : DumpStyle) (level : Nat) (tree : Tree) (kind : NodeKind) :
    readLine? (indentation level ++ style.nodeLine tree kind) = none :=
  if_neg ((isPlain_indentation level).append (style.isPlain_nodeLine tree kind)).1

theorem readLine?_tokenLine (style : DumpStyle) (level : Nat) (token : Token) :
    readLine? (indentation level ++ style.tokenLine token) =
      some (style.tokenLine token).toList := by
  have hquote : '"' ∈ (indentation level ++ style.tokenLine token).toList := by
    rw [String.toList_append, DumpStyle.toList_tokenLine]
    simp
  have hlabel : (style.tokenLine token).toList.dropWhile (· = ' ') =
      (style.tokenLine token).toList := by
    have hblank := token.kind.blank_notMem_label
    have hne : token.kind.label.toList ≠ [] := by cases token.kind <;> decide +kernel
    rw [DumpStyle.toList_tokenLine, String.toList_append, String.toList_append]
    revert hblank hne
    cases token.kind.label.toList with
    | nil => exact fun _ hne => absurd rfl hne
    | cons first rest =>
      intro hblank _
      have hfirst : first ≠ ' ' := (List.ne_of_not_mem_cons hblank).symm
      simp [hfirst]
  rw [readLine?, if_pos hquote, String.toList_append, indentation, String.toList_ofList,
    List.dropWhile_append_of_pos (by simp), hlabel]

mutual

theorem filterMap_readLine?_pushLines (style : DumpStyle) (level : Nat) (lines : List String) :
    ∀ tree : Tree, (pushLines style level lines tree).filterMap readLine? =
      ((tree.leaves.filter style.shows).map fun token => (style.tokenLine token).toList).reverse ++
        lines.filterMap readLine?
  | leaf token => by
    rw [pushLines, leaves_leaf, ← DumpStyle.shows]
    cases hshows : style.shows token with
    | true => simp [hshows, readLine?_tokenLine]
    | false => simp [hshows]
  | node kind children => by
    rw [pushLines, filterMap_readLine?_pushAllLines, leaves_node,
      List.filterMap_cons_none (readLine?_nodeLine style level _ kind)]

theorem filterMap_readLine?_pushAllLines (style : DumpStyle) (level : Nat) (lines : List String) :
    ∀ trees : List Tree, (pushAllLines style level lines trees).filterMap readLine? =
      ((allLeaves trees).filter style.shows |>.map fun token =>
        (style.tokenLine token).toList).reverse ++ lines.filterMap readLine?
  | [] => rfl
  | tree :: trees => by
    rw [pushAllLines, filterMap_readLine?_pushAllLines style level _ trees,
      filterMap_readLine?_pushLines style level lines tree]
    simp

end

/-- The tokens that a dump shows can be read off its lines. -/
theorem filterMap_readLine?_dumpLines (style : DumpStyle) (tree : Tree) :
    (tree.dumpLines style).filterMap readLine? =
      (tree.leaves.filter style.shows).map fun token => (style.tokenLine token).toList := by
  rw [dumpLines, List.filterMap_reverse, filterMap_readLine?_pushLines]
  simp

mutual

theorem newline_notMem_pushLines (style : DumpStyle) (level : Nat) {lines : List String}
    (h : ∀ line ∈ lines, '\n' ∉ line.toList) :
    ∀ tree : Tree, ∀ line ∈ pushLines style level lines tree, '\n' ∉ line.toList
  | leaf token => by
    rw [pushLines]
    split
    · rw [List.forall_mem_cons, String.toList_append, List.mem_append, not_or]
      exact ⟨⟨(isPlain_indentation level).2, style.newline_notMem_tokenLine token⟩, h⟩
    · exact h
  | node kind children => by
    refine newline_notMem_pushAllLines style (level + 1) ?_ children
    rw [List.forall_mem_cons]
    exact ⟨((isPlain_indentation level).append (style.isPlain_nodeLine _ kind)).2, h⟩

theorem newline_notMem_pushAllLines (style : DumpStyle) (level : Nat) {lines : List String}
    (h : ∀ line ∈ lines, '\n' ∉ line.toList) :
    ∀ trees : List Tree, ∀ line ∈ pushAllLines style level lines trees, '\n' ∉ line.toList
  | [] => h
  | tree :: trees =>
    newline_notMem_pushAllLines style level (newline_notMem_pushLines style level h tree) trees

end

theorem toList_dump (style : DumpStyle) (tree : Tree) :
    (tree.dump style).toList = (tree.dumpLines style).flatMap fun line => line.toList ++ ['\n'] := by
  have hfold (text : String) (lines : List String) :
      (lines.foldl (fun text line => text ++ line ++ "\n") text).toList =
        text.toList ++ lines.flatMap fun line => line.toList ++ ['\n'] := by
    induction lines generalizing text with
    | nil => simp
    | cons line lines ih => simp [ih]
  rw [dump, hfold]
  rfl

/-- Lines that end in their first line end are known from the text they make. -/
theorem eq_of_flatMap_line_eq {lines others : List String}
    (hlines : ∀ line ∈ lines, '\n' ∉ line.toList) (hothers : ∀ line ∈ others, '\n' ∉ line.toList)
    (h : lines.flatMap (fun line => line.toList ++ ['\n']) =
      others.flatMap fun line => line.toList ++ ['\n']) : lines = others := by
  induction lines generalizing others with
  | nil =>
    cases others with
    | nil => rfl
    | cons other others => simp at h
  | cons line lines ih =>
    cases others with
    | nil => simp at h
    | cons other others =>
      rw [List.forall_mem_cons] at hlines hothers
      simp only [List.flatMap_cons, List.append_assoc, List.singleton_append] at h
      obtain ⟨hline, hrest⟩ := append_cons_inj hlines.1 hothers.1 h
      rw [String.toList_inj.mp hline, ih hlines.2 hothers.2 hrest]

/-- Equal dumps have equal lines, so they show tokens on equal lines. -/
theorem map_tokenLine_eq_of_dump_eq {style : DumpStyle} {tree other : Tree}
    (h : tree.dump style = other.dump style) :
    (tree.leaves.filter style.shows).map style.tokenLine =
      (other.leaves.filter style.shows).map style.tokenLine := by
  have hclean (tree : Tree) : ∀ line ∈ tree.dumpLines style, '\n' ∉ line.toList := by
    intro line hline
    exact newline_notMem_pushLines style 0 (by simp) tree line (List.mem_reverse.mp hline)
  have hlist := congrArg String.toList h
  rw [toList_dump, toList_dump] at hlist
  have hlines := eq_of_flatMap_line_eq (hclean tree) (hclean other) hlist
  have hread := congrArg (List.filterMap readLine?) hlines
  rw [filterMap_readLine?_dumpLines, filterMap_readLine?_dumpLines] at hread
  apply List.map_injective_iff.mpr fun _ _ => String.toList_inj.mp
  rw [List.map_map, List.map_map]
  exact hread

end Tree

/-- Lists that agree under one function agree under another that it decides on. -/
theorem map_eq_of_map_eq {α β γ : Type} {f : α → β} {g : α → γ}
    (h : ∀ a b, f a = f b → g a = g b) {xs ys : List α} (hmap : xs.map f = ys.map f) :
    xs.map g = ys.map g := by
  have hiff {δ : Type} (k : α → δ) :
      List.Forall₂ Eq (xs.map k) (ys.map k) ↔ List.Forall₂ (fun a b => k a = k b) xs ys := by
    rw [List.forall₂_map_left_iff, List.forall₂_map_right_iff]
  simp only [List.forall₂_eq_eq_eq] at hiff
  exact (hiff g).mpr (((hiff f).mp hmap).imp h)

namespace Document

open GuardedQuery.Tree

variable {limits others : Limits} {a b : Source} {first second : Document}

/-- Documents of one text are equal. -/
theorem eq_of_text_eq (ha : parse limits a = .ok first) (hb : parse others b = .ok second)
    (h : a.text = b.text) : first = second := by
  obtain ⟨children, hderives, htokens, rfl⟩ := parse_trusted_eq_ok_iff.1 (parse_trusted_of_parse ha)
  obtain ⟨children', hderives', htokens', rfl⟩ := parse_trusted_eq_ok_iff.1 (parse_trusted_of_parse hb)
  rw [h] at htokens
  obtain rfl := hderives.document_unique hderives' (htokens.symm.trans htokens')
  rw [h]

/-- Documents of the same significant tokens have one plain dump. -/
theorem dump_eq_of_significant_eq (ha : parse limits a = .ok first)
    (hb : parse others b = .ok second)
    (h : (significant (lex a.text)).map Token.lexeme =
      (significant (lex b.text)).map Token.lexeme) : first.dump {} = second.dump {} := by
  have halike := result_alike h
  rw [← parse_trusted, ← parse_trusted, parse_trusted_of_parse ha, parse_trusted_of_parse hb]
    at halike
  cases halike with
  | ok h => exact h.dump

/-- Dumps are faithful.  Two documents have the same plain dump if and only if their sources
have the same significant tokens, and the same full dump if and only if their sources are the
same text. -/
theorem dump_faithful (ha : parse limits a = .ok first) (hb : parse others b = .ok second) :
    (first.dump {} = second.dump {} ↔
      (significant (lex a.text)).map Token.lexeme = (significant (lex b.text)).map Token.lexeme) ∧
    (first.dump .full = second.dump .full ↔ a.text = b.text) := by
  have hleaves := leaves_of_parse ha
  have hleaves' := leaves_of_parse hb
  refine ⟨⟨fun h => ?_, dump_eq_of_significant_eq ha hb⟩, fun h => ?_, fun h => ?_⟩
  · have hlines := map_tokenLine_eq_of_dump_eq h
    rw [hleaves, hleaves'] at hlines
    exact map_eq_of_map_eq (fun _ _ => DumpStyle.lexeme_eq_of_tokenLine_eq) hlines
  · have hlines := map_tokenLine_eq_of_dump_eq h
    have hall (tokens : List Token) : tokens.filter DumpStyle.full.shows = tokens :=
      List.filter_eq_self.mpr fun _ _ => rfl
    rw [hall, hall, hleaves, hleaves'] at hlines
    have htexts := map_eq_of_map_eq (g := Token.text)
      (fun _ _ h => (DumpStyle.tokenLine_inj h).2) hlines
    rw [← (lex_tiles a.text).covers, ← (lex_tiles b.text).covers, htexts]
  · rw [eq_of_text_eq ha hb h]

/-- A string with a quote and a mark that is not printable, and the same with a comment. -/
theorem dump_of_comment :
    let a : Source := ⟨[⟨none, "\x7ba(b:\"\\\"\u0301\")\x7d", 0⟩], 13⟩
    let b : Source := ⟨[⟨none, "\x7ba(b:\"\\\"\u0301\"#c\n)\x7d", 0⟩], 16⟩
    ∃ first second, parse {} a = .ok first ∧ parse .trusted b = .ok second ∧
      first.dump {} = second.dump {} ∧ first.dump .full ≠ second.dump .full := by
  intro a b
  have hok : (parse {} a).isOk = true := by decide +kernel
  have hok' : (parse .trusted b).isOk = true := by decide +kernel
  rcases hparse : parse {} a with fault | first
  · rw [hparse] at hok
    cases hok
  · rcases hparse' : parse .trusted b with fault | second
    · rw [hparse'] at hok'
      cases hok'
    · obtain ⟨hplain, hfull⟩ := dump_faithful hparse hparse'
      refine ⟨first, second, rfl, rfl, hplain.mpr (by decide +kernel), fun h => ?_⟩
      exact absurd (hfull.mp h) (by decide +kernel)

end Document

end GuardedQuery
