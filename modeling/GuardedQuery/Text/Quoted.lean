import GuardedQuery.Text.Printable

/-! # Quoted text

Text between double quotes, so that it stands on one line and every character of
it can be told apart: the quote and the backslash take a backslash, four controls
have a letter of their own, and every other character that is not printable is
written as its code point in hexadecimal.
-/

namespace GuardedQuery.Text

/-- The code point in lower-case hexadecimal without leading zeros, as an escape. -/
def codePointEscape (c : Char) : List Char :=
  '\\' :: 'u' :: '\x7b' :: (Nat.toDigits 16 c.toNat ++ ['\x7d'])

def quotedChar (c : Char) : List Char :=
  match c with
  | '\x00' => ['\\', '0']
  | '\t' => ['\\', 't']
  | '\r' => ['\\', 'r']
  | '\n' => ['\\', 'n']
  | '"' => ['\\', '"']
  | '\\' => ['\\', '\\']
  | c => if isPrintable c then [c] else codePointEscape c

def quoted (text : String) : String :=
  String.ofList ('"' :: (text.toList.flatMap quotedChar ++ ['"']))

end GuardedQuery.Text
