import DataExpr.Document
import DataExpr.Decimal

/-!
# Printing of JSON documents

`Document.compact` writes a document without any blanks, and `Document.pretty` writes every item and
member on a line of its own, two spaces further in than what it belongs to.  An empty array or object
takes no line breaks.  Members come in the order in which the document has them.

Inside a string only the quote, the backslash and the control characters below the space are escaped;
every other character is written as it is.
-/

namespace DataExpr

/-- A float in a document always shows that it is one, by a point or an exponent.  Magnitudes from
`10 ^ -5` to `10 ^ 15` are written without exponent, and of two candidates equally near the even one
is taken. -/
def Decimal.inDocument : Decimal.Format := ⟨.even, some (-5, 15), true⟩

namespace Document

/-! ### Strings -/

/-- A control character by its number: four hexadecimal digits, the first two of which are zero. -/
def controlEscape (c : Char) : List Char :=
  ['\\', 'u', '0', '0', Nat.digitChar (c.toNat / 16), Nat.digitChar (c.toNat % 16)]

/-- How one character is written inside a string. -/
def escapedChar (c : Char) : List Char :=
  if c = '"' then ['\\', '"']
  else if c = '\\' then ['\\', '\\']
  else if c = '\x08' then ['\\', 'b']
  else if c = '\x0c' then ['\\', 'f']
  else if c = '\n' then ['\\', 'n']
  else if c = '\r' then ['\\', 'r']
  else if c = '\t' then ['\\', 't']
  else if c < ' ' then controlEscape c
  else [c]

/-- The text as a string of a document. -/
def string (s : String) : String :=
  String.ofList ('"' :: s.toList.flatMap escapedChar ++ ['"'])

/-! ### Documents without blanks -/

mutual

/-- The document as text without blanks. -/
def compact : Document → String
  | null => "null"
  | bool b => if b then "true" else "false"
  | int n => toString n
  | float x => Decimal.printFloat Decimal.inDocument x
  | str s => string s
  | array items => "[" ++ ",".intercalate (compactItems items) ++ "]"
  | object members => "\x7b" ++ ",".intercalate (compactMembers members) ++ "\x7d"

/-- The items of an array, each as text. -/
def compactItems : List Document → List String
  | [] => []
  | d :: ds => compact d :: compactItems ds

/-- The members of an object, each as text. -/
def compactMembers : List (String × Document) → List String
  | [] => []
  | (k, d) :: ms => (string k ++ ":" ++ compact d) :: compactMembers ms

end

/-! ### Documents with line breaks -/

/-- The blanks at the front of a line at that depth. -/
def indentation (depth : Nat) : String := String.ofList (List.replicate (2 * depth) ' ')

/-- Lines between an opening and a closing bracket, one level further in than the brackets; without
lines the brackets stand together. -/
def block (depth : Nat) (opening closing : String) (lines : List String) : String :=
  if lines.isEmpty then opening ++ closing
  else
    opening ++ "\n" ++ ",\n".intercalate (lines.map (indentation (depth + 1) ++ ·)) ++ "\n" ++
      indentation depth ++ closing

mutual

/-- The document as text with line breaks, for a place at that depth. -/
def prettyAt (depth : Nat) : Document → String
  | array items => block depth "[" "]" (prettyItems (depth + 1) items)
  | object members => block depth "\x7b" "\x7d" (prettyMembers (depth + 1) members)
  | scalar => compact scalar

/-- The items of an array, each as text. -/
def prettyItems (depth : Nat) : List Document → List String
  | [] => []
  | d :: ds => prettyAt depth d :: prettyItems depth ds

/-- The members of an object, each as text. -/
def prettyMembers (depth : Nat) : List (String × Document) → List String
  | [] => []
  | (k, d) :: ms => (string k ++ ": " ++ prettyAt depth d) :: prettyMembers depth ms

end

/-- The document as text with line breaks. -/
def pretty (d : Document) : String := prettyAt 0 d

end Document

end DataExpr
