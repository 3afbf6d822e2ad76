import GuardedQuery.CommandLine.Settings
import GuardedQuery.Proofs.Text.Numerals
import Mathlib.Logic.Function.Basic

/-! # Where limits come from

A limit is given on the command line, or set in the environment, or built in.  Each of the
four goes its own way through these layers: what is said of one of them, well or badly, is
of no consequence for the others.

- `Measure`: what limits are put on, with the variable and the built-in number of each.
- `Layered`: how a number comes of the layers.
- `Settings.number_limits`: the number of each limit, from its own layers alone.
- `Settings.limits_layered`: all four limits and their ceilings.
-/

namespace GuardedQuery

inductive Measure where
  | chars
  | depth
  | tokens
  | nodes
deriving DecidableEq

namespace Measure

def variableName : Measure → String
  | chars => "PALISADE_MAX_CHARS"
  | depth => "PALISADE_MAX_DEPTH"
  | tokens => "PALISADE_MAX_TOKENS"
  | nodes => "PALISADE_MAX_NODES"

def builtIn : Measure → Int32
  | chars => 1048576
  | depth => 500
  | tokens => 15000
  | nodes => 500

theorem variableName_injective {measure other : Measure}
    (h : measure.variableName = other.variableName) : measure = other := by
  cases measure <;> cases other <;> first | rfl | exact absurd h (by decide)

end Measure

def Limits.number (limits : Limits) : Measure → Int32
  | .chars => limits.chars
  | .depth => limits.depth
  | .tokens => limits.tokens
  | .nodes => limits.nodes

def Limits.ceilingOf? (limits : Limits) : Measure → Option UInt32
  | .chars => limits.charCeiling?
  | .depth => limits.depthCeiling?
  | .tokens => limits.tokenCeiling?
  | .nodes => limits.nodeCeiling?

def Settings.number? (settings : Settings) : Measure → Option Int32
  | .chars => settings.chars
  | .depth => settings.depth
  | .tokens => settings.tokens
  | .nodes => settings.nodes

def Settings.withNumber (settings : Settings) (number : Option Int32) : Measure → Settings
  | .chars => { settings with chars := number }
  | .depth => { settings with depth := number }
  | .tokens => { settings with tokens := number }
  | .nodes => { settings with nodes := number }

/-- The number that comes of the one given, if any, the text set, if any, and the one built in.
A text counts if it denotes an integer of 32 bits. -/
inductive Layered (builtIn : Int32) : Option Int32 → Option String → Int32 → Prop where
  | given {number : Int32} {text? : Option String} : Layered builtIn (some number) text? number
  | set {text : String} {number : Int32} (h : Text.Denotes text number.toInt) :
      Layered builtIn none (some text) number
  | unset : Layered builtIn none none builtIn
  | malformed {text : String}
      (h : ∀ number, Text.Denotes text number → number < -2147483648 ∨ 2147483647 < number) :
      Layered builtIn none (some text) builtIn

/-! ## One limit -/

section layers

variable {builtIn number : Int32} {given? : Option Int32} {text? : Option String}

theorem Limits.resolve_layered (text? : Option String) (builtIn : Int32) :
    Layered builtIn none text? (Limits.resolve text? builtIn) := by
  cases text? with
  | none => exact .unset
  | some text =>
    simp only [Limits.resolve, Option.bind_some]
    cases hread : Text.readInt32? (Text.trimBlanks text.toList) with
    | some number => exact .set (Text.readInt32?_trimBlanks.1 hread)
    | none =>
      apply Layered.malformed
      intro number hdenotes
      by_contra hinside
      have hword : (Int32.ofInt number).toInt = number :=
        Int32.toInt_ofInt_of_le (by omega) (by omega)
      rw [← hword, ← Text.readInt32?_trimBlanks, hread] at hdenotes
      cases hdenotes

/-- The layers leave no choice. -/
theorem Layered.iff_eq :
    Layered builtIn given? text? number ↔ given?.getD (Limits.resolve text? builtIn) = number := by
  constructor
  · intro h
    cases h with
    | given => rfl
    | unset => rfl
    | set h => simp [Limits.resolve, Text.readInt32?_trimBlanks.2 h]
    | @malformed text h =>
      have hnone : Text.readInt32? (Text.trimBlanks text.toList) = none := by
        cases hread : Text.readInt32? (Text.trimBlanks text.toList) with
        | none => rfl
        | some number =>
          have hlow := Int32.le_toInt number
          have hhigh := Int32.toInt_lt number
          have hdenotes := h _ (Text.readInt32?_trimBlanks.1 hread)
          omega
      simp [Limits.resolve, hnone]
  · rintro rfl
    cases given? with
    | none => exact Limits.resolve_layered text? builtIn
    | some number => exact .given

end layers

/-- A ceiling is the number itself, unless the check is off. -/
theorem Limits.map_ceiling? (limits : Limits) (number : Int32) :
    (limits.ceiling? number).map (fun ceiling => (ceiling.toNat : Int)) =
      if limits.trust ∨ number.toInt ≤ 0 then none else some number.toInt := by
  have hoff : number ≤ 0 ↔ number.toInt ≤ 0 := Int32.le_iff_toInt_le
  rw [Limits.ceiling?]
  simp only [hoff]
  split
  · rfl
  · next hon =>
    have hpositive : 0 < number.toInt := Int.not_le.1 (not_or.1 hon).2
    have hword : number.toUInt32.toNat = number.toInt.toNat :=
      Int32.toNat_toUInt32_of_le (Int32.le_iff_toInt_le.2 (Int.le_of_lt hpositive))
    rw [Option.map_some, hword, Int.toNat_of_nonneg (Int.le_of_lt hpositive)]

theorem Limits.ceiling?_congr {limits other : Limits} (h : limits.trust = other.trust)
    (number : Int32) : limits.ceiling? number = other.ceiling? number := by
  simp only [Limits.ceiling?, h]

theorem Limits.ceilingOf?_eq (limits : Limits) (measure : Measure) :
    limits.ceilingOf? measure = limits.ceiling? (limits.number measure) := by
  cases measure <;> rfl

/-! ## All four limits -/

namespace Settings

/-- A limit is the one given, and without one what its own variable sets. -/
theorem number_limits (settings : Settings) (lookup : String → Option String)
    (measure : Measure) :
    (settings.limits (.ofLookup lookup)).number measure =
      (settings.number? measure).getD
        (Limits.resolve (lookup measure.variableName) measure.builtIn) := by
  cases measure <;> rfl

theorem number?_withNumber_of_ne {measure other : Measure} (h : other ≠ measure)
    (settings : Settings) (number : Option Int32) :
    (settings.withNumber number other).number? measure = settings.number? measure := by
  cases measure <;> cases other <;> first | rfl | exact absurd rfl h

theorem trusted_withNumber (settings : Settings) (number : Option Int32) (measure : Measure) :
    (settings.withNumber number measure).trusted = settings.trusted := by
  cases measure <;> rfl

/-- Each limit is the number given, or else the integer that its variable denotes, or else the
one built in.  Its ceiling is that number, or none under trust and where the number is not
positive.  Whatever is given and set for another limit changes neither. -/
theorem limits_layered (settings : Settings) (lookup : String → Option String)
    (measure : Measure) :
    (∀ number, Layered measure.builtIn (settings.number? measure) (lookup measure.variableName)
        number ↔ (settings.limits (.ofLookup lookup)).number measure = number) ∧
    ((settings.limits (.ofLookup lookup)).ceilingOf? measure).map
        (fun ceiling => (ceiling.toNat : Int)) =
      (if settings.trusted ∨ ((settings.limits (.ofLookup lookup)).number measure).toInt ≤ 0 then
        none
      else some ((settings.limits (.ofLookup lookup)).number measure).toInt) ∧
    ∀ other ≠ measure, ∀ given? text?,
      ((settings.withNumber given? other).limits
          (.ofLookup (Function.update lookup other.variableName text?))).number measure =
        (settings.limits (.ofLookup lookup)).number measure ∧
      ((settings.withNumber given? other).limits
          (.ofLookup (Function.update lookup other.variableName text?))).ceilingOf? measure =
        (settings.limits (.ofLookup lookup)).ceilingOf? measure := by
  refine ⟨fun number => ?layers, ?ceiling, fun other hother given? text? => ?others⟩
  case layers => rw [number_limits, Layered.iff_eq]
  case ceiling =>
    rw [Limits.ceilingOf?_eq, Limits.map_ceiling?]
    rfl
  case others =>
    have hname : measure.variableName ≠ other.variableName :=
      fun h => hother (Measure.variableName_injective h).symm
    have hnumber : ((settings.withNumber given? other).limits
          (.ofLookup (Function.update lookup other.variableName text?))).number measure =
        (settings.limits (.ofLookup lookup)).number measure := by
      rw [number_limits, number_limits, number?_withNumber_of_ne hother,
        Function.update_of_ne hname]
    refine ⟨hnumber, ?_⟩
    -- Ceilings depend on trust besides, and that is given apart from all numbers.
    rw [Limits.ceilingOf?_eq, Limits.ceilingOf?_eq, hnumber]
    exact Limits.ceiling?_congr (trusted_withNumber settings given? other) _

end Settings

end GuardedQuery
