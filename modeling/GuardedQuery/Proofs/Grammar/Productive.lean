import GuardedQuery.Proofs.Grammar.Derivation

/-! # Every rule has a derivation

- `Pattern.isProductive`: a pattern has a derivation if some rules do.
- `productiveWithin`: the rules with a derivation of at most some depth.
- `exists_derives`: every rule has a derivation.
-/

namespace GuardedQuery

namespace Grammar

/-- A lexeme that meets the condition, if some word is left for it. -/
def Terminal.sample? : Terminal → Option Lexeme
  | kind k => some ⟨k, ""⟩
  | word words => words.head?.map (⟨.name, ·⟩)
  | nameBut words => if "" ∈ words then none else some ⟨.name, ""⟩

theorem Terminal.admits_sample {terminal : Terminal} {lexeme : Lexeme}
    (h : terminal.sample? = some lexeme) : terminal.Admits lexeme := by
  cases terminal with
  | kind k => cases h; rfl
  | word words =>
    obtain ⟨text, htext, rfl⟩ := Option.map_eq_some_iff.1 h
    exact ⟨rfl, List.mem_of_head? htext⟩
  | nameBut words =>
    simp only [sample?, Option.ite_none_left_eq_some, Option.some.injEq] at h
    obtain ⟨hword, rfl⟩ := h
    exact ⟨rfl, hword⟩

def Pattern.isProductive (known : NodeKind → Bool → Bool) : Pattern → Bool
  | empty | optional _ | many _ => true
  | token terminal => terminal.sample?.isSome
  | rule kind constant => known kind constant
  | both first second => first.isProductive known && second.isProductive known
  | either left right => left.isProductive known || right.isProductive known

theorem exists_derives_of_isProductive {known : NodeKind → Bool → Bool}
    (hknown : ∀ kind constant, known kind constant = true →
      ∃ children, Derives (production kind constant) children)
    {pattern : Pattern} (h : pattern.isProductive known = true) :
    ∃ trees, Derives pattern trees := by
  induction pattern with
  | empty => exact ⟨[], .empty⟩
  | optional pattern _ => exact ⟨[], .absent⟩
  | many pattern _ => exact ⟨[], .done⟩
  | token terminal =>
    obtain ⟨lexeme, hlexeme⟩ := Option.isSome_iff_exists.1 h
    exact ⟨[.leaf lexeme.token], .token (Terminal.admits_sample hlexeme)⟩
  | rule kind constant =>
    obtain ⟨children, hchildren⟩ := hknown kind constant h
    exact ⟨_, .rule hchildren⟩
  | both first second ihfirst ihsecond =>
    simp only [Pattern.isProductive, Bool.and_eq_true] at h
    obtain ⟨trees, htrees⟩ := ihfirst h.1
    obtain ⟨more, hmore⟩ := ihsecond h.2
    exact ⟨trees ++ more, .both htrees hmore⟩
  | either left right ihleft ihright =>
    simp only [Pattern.isProductive, Bool.or_eq_true] at h
    rcases h with h | h
    · obtain ⟨trees, htrees⟩ := ihleft h
      exact ⟨trees, .left htrees⟩
    · obtain ⟨trees, htrees⟩ := ihright h
      exact ⟨trees, .right htrees⟩

def productiveWithin : Nat → NodeKind → Bool → Bool
  | 0, _, _ => false
  | depth + 1, kind, constant => (production kind constant).isProductive (productiveWithin depth)

theorem exists_derives_of_productiveWithin {depth : Nat} {kind : NodeKind} {constant : Bool}
    (h : productiveWithin depth kind constant = true) :
    ∃ children, Derives (production kind constant) children := by
  induction depth generalizing kind constant with
  | zero => cases h
  | succ depth ih => exact exists_derives_of_isProductive (fun _ _ hknown => ih hknown) h

theorem productiveWithin_four (kind : NodeKind) (constant : Bool) :
    productiveWithin 4 kind constant = true := by
  -- It takes four from a document over an operation and its selections to a field.
  cases kind <;> cases constant <;> decide

/-- Every rule has a derivation, and so has every pattern that asks for possible tokens. -/
theorem exists_derives {pattern : Pattern} (h : pattern.isProductive (fun _ _ => true) = true) :
    ∃ trees, Derives pattern trees := by
  refine exists_derives_of_isProductive (fun kind constant _ => ?_) h
  exact exists_derives_of_productiveWithin (productiveWithin_four kind constant)

end Grammar

end GuardedQuery
