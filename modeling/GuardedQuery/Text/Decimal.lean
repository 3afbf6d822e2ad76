/-! # Decimal integers

Reading an integer written as an optional sign and one or more ASCII digits, with
bounds on its value.

- `IntegerFault`: why a text is no such integer.
- `readInteger`: the reader; of several faults it reports the leftmost.
-/

namespace GuardedQuery.Text

inductive IntegerFault where
  | empty
  | invalidDigit
  | tooLarge
  | tooSmall
deriving Repr, DecidableEq

namespace IntegerFault

def message : IntegerFault → String
  | empty => "cannot parse integer from empty string"
  | invalidDigit => "invalid digit found in string"
  | tooLarge => "number too large to fit in target type"
  | tooSmall => "number too small to fit in target type"

end IntegerFault

def digit? (c : Char) : Option Nat :=
  if '0' ≤ c ∧ c ≤ '9' then some (c.toNat - '0'.toNat) else none

/-- Appends the digits to `value`, away from zero on the side of the sign, and stops
at the first character that is no digit or leaves the bounds. -/
def readDigits (low high : Int) (negative : Bool) :
    Int → List Char → Except IntegerFault Int
  | value, [] => .ok value
  | value, c :: rest =>
    match digit? c with
    | none => .error .invalidDigit
    | some d =>
      -- Below zero the value is built up downwards, for the lower bound lies farther out.
      let next := if negative then value * 10 - d else value * 10 + d
      if next < low then .error .tooSmall
      else if high < next then .error .tooLarge
      else readDigits low high negative next rest

/-- Reads an optional sign and one or more digits as an integer from `low` to `high`. -/
def readInteger (low high : Int) (chars : List Char) : Except IntegerFault Int :=
  match chars with
  | [] => .error .empty
  | ['+'] | ['-'] => .error .invalidDigit
  | '+' :: digits => readDigits low high false 0 digits
  | '-' :: digits => readDigits low high true 0 digits
  | digits => readDigits low high false 0 digits

def readInt32? (chars : List Char) : Option Int32 :=
  match readInteger Int32.minValue.toInt Int32.maxValue.toInt chars with
  | .ok value => some (Int32.ofInt value)
  | .error _ => none

end GuardedQuery.Text
