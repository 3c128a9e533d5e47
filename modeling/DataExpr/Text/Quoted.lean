import DataExpr.Text.Shapeless

/-!
# Text in quotes, for reading by people

`Text.quoted` shows a text between double quotes so that every character of it can be told apart.
The quote, the backslash and the common control characters have short escapes, and a character
without a shape of its own (`Text.isShapeless`) is shown by its number in hexadecimal.
-/

namespace DataExpr.Text

/-- A character given by its number: a backslash, `u`, and the hexadecimal digits in braces. -/
def numbered (c : Char) : List Char :=
  ['\\', 'u', '\x7b'] ++ Nat.toDigits 16 c.toNat ++ ['\x7d']

/-- How one character is shown inside double quotes. -/
def quotedChar (c : Char) : List Char :=
  if c = '\x00' then ['\\', '0']
  else if c = '\t' then ['\\', 't']
  else if c = '\r' then ['\\', 'r']
  else if c = '\n' then ['\\', 'n']
  else if c = '\\' then ['\\', '\\']
  else if c = '"' then ['\\', '"']
  else if isShapeless c then numbered c
  else [c]

/-- The text in double quotes, with escapes for what cannot be shown as it is. -/
def quoted (s : String) : String :=
  String.ofList ('"' :: s.toList.flatMap quotedChar ++ ['"'])

end DataExpr.Text
