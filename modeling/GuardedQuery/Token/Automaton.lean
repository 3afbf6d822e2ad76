import GuardedQuery.Token.Kind

/-! # The token automaton

One automaton reads the tokens of every kind but block strings.  It reads on as long
as what was read can still become a token; some of its states say that it is one.

- `Scan`: the states, named for what was read.
- `Scan.step`: reads a character, or gets stuck.
- `Scan.accepts`: the kind of what was read, if it is a token.
-/

namespace GuardedQuery

inductive Scan where
  | start
  | complete (kind : TokenKind)
  | dot
  | dots
  | name
  | minus
  | zero
  | digits
  | point
  | fraction
  | exponent
  | exponentSign
  | exponentDigits
  | string
  | escape
  /-- Part of a string and an escaped code point of which `more + 1` digits lack. -/
  | codePoint (more : Nat)
  | blank
  | carriageReturn
  | comment
deriving Repr, DecidableEq

def isNameStart (c : Char) : Bool :=
  c == '_' || ('A' ≤ c && c ≤ 'Z') || ('a' ≤ c && c ≤ 'z')

def isDigit (c : Char) : Bool :=
  '0' ≤ c && c ≤ '9'

def isHexDigit (c : Char) : Bool :=
  isDigit c || ('A' ≤ c && c ≤ 'F') || ('a' ≤ c && c ≤ 'f')

def isLineBlank (c : Char) : Bool :=
  c == ' ' || c == '\t' || c == '\ufeff'

def isLineEnd (c : Char) : Bool :=
  c == '\n' || c == '\r'

/-- The characters that may stand behind a backslash, code points apart. -/
def isEscapable (c : Char) : Bool :=
  ['"', '\\', '/', 'b', 'f', 'n', 'r', 't'].contains c

namespace Scan

def punctuator? : Char → Option TokenKind
  | '\x7b' => some .braceOpen
  | '\x7d' => some .braceClose
  | '(' => some .parenOpen
  | ')' => some .parenClose
  | '[' => some .bracketOpen
  | ']' => some .bracketClose
  | ':' => some .colon
  | '=' => some .equals
  | '@' => some .atSign
  | '$' => some .dollar
  | '!' => some .bang
  | '&' => some .amp
  | '|' => some .pipe
  | ',' => some .comma
  | '\n' => some .newline
  | _ => none

def first (c : Char) : Option Scan :=
  match punctuator? c with
  | some kind => some (complete kind)
  | none =>
    if isNameStart c then some name
    else if c = '0' then some zero
    else if isDigit c then some digits
    else if c = '-' then some minus
    else if c = '.' then some dot
    else if c = '"' then some string
    else if c = '#' then some comment
    else if c = '\r' then some carriageReturn
    else if isLineBlank c then some blank
    else none

def afterInteger (c : Char) : Option Scan :=
  if c = '.' then some point
  else if c = 'e' ∨ c = 'E' then some exponent
  else none

@[inline] def step : Scan → Char → Option Scan
  | start, c => first c
  | complete _, _ => none
  | dot, c => if c = '.' then some dots else none
  | dots, c => if c = '.' then some (complete .spread) else none
  | name, c => if isNameStart c || isDigit c then some name else none
  | minus, c => if c = '0' then some zero else if isDigit c then some digits else none
  | zero, c => afterInteger c
  | digits, c => if isDigit c then some digits else afterInteger c
  | point, c => if isDigit c then some fraction else none
  | fraction, c =>
    if isDigit c then some fraction
    else if c = 'e' ∨ c = 'E' then some exponent
    else none
  | exponent, c =>
    if isDigit c then some exponentDigits
    else if c = '+' ∨ c = '-' then some exponentSign
    else none
  | exponentSign, c => if isDigit c then some exponentDigits else none
  | exponentDigits, c => if isDigit c then some exponentDigits else none
  | string, c =>
    if c = '"' then some (complete .stringLit)
    else if c = '\\' then some escape
    else if isLineEnd c then none
    else some string
  | escape, c =>
    if isEscapable c then some string
    else if c = 'u' then some (codePoint 3)
    else none
  | codePoint 0, c => if isHexDigit c then some string else none
  | codePoint (more + 1), c => if isHexDigit c then some (codePoint more) else none
  | blank, c => if isLineBlank c then some blank else none
  | carriageReturn, c => if c = '\n' then some (complete .newline) else none
  | comment, c => if isLineEnd c then none else some comment

@[inline] def accepts : Scan → Option TokenKind
  | complete kind => some kind
  | name => some .name
  | zero | digits => some .intLit
  | fraction | exponentDigits => some .floatLit
  | blank => some .whitespace
  | carriageReturn => some .newline
  | comment => some .comment
  | start | dot | dots | minus | point | exponent | exponentSign | string | escape
  | codePoint _ => none

end Scan

end GuardedQuery
