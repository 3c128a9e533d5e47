/-!
# Lines of a text

A line ends with a line feed, a carriage return or one of the other line terminators; a carriage
return and a line feed after it are one terminator.  `Text.lines` splits a text into its lines, each
with its terminator, and loses nothing (`flatten_lines`).  `Text.locate` finds the line that a
position lies in.

`Text.isSpace` tells which characters are white space, line terminators among them.
-/

namespace DataExpr.Text

/-- Whether a line ends with the character. -/
def endsLine (c : Char) : Bool :=
  c == '\n' || c == '\r' || c == '\x0b' || c == '\x0c' || c == '\u0085' || c == '\u2028' ||
    c == '\u2029'

/-- Whether the character is white space: one that has the property `White_Space`. -/
def isSpace (c : Char) : Bool :=
  endsLine c || c == ' ' || c == '\t' || c == '\u00a0' || c == '\u1680' ||
    ('\u2000' ≤ c && c ≤ '\u200a') || c == '\u202f' || c == '\u205f' || c == '\u3000'

/-- The lines with a character put in front of the first. -/
def consToFirst (c : Char) : List (List Char) → List (List Char)
  | [] => [[c]]
  | line :: lines => (c :: line) :: lines

/-- The lines of a text, each with its terminator. -/
def lines : List Char → List (List Char)
  | [] => []
  | '\r' :: '\n' :: cs => ['\r', '\n'] :: lines cs
  | c :: cs => if endsLine c then [c] :: lines cs else consToFirst c (lines cs)

theorem flatten_consToFirst (c : Char) (ls : List (List Char)) :
    (consToFirst c ls).flatten = c :: ls.flatten := by
  cases ls <;> simp [consToFirst]

/-- The lines make up the text. -/
theorem flatten_lines (cs : List Char) : (lines cs).flatten = cs := by
  fun_induction lines cs with
  | case1 => rfl
  | case2 cs ih => simp [ih]
  | case3 c cs _ _ ih => simp [ih]
  | case4 c cs _ _ ih => rw [flatten_consToFirst, ih]

/-- A position in a text: the line it lies in, with the number of the line and of the column, both
counted from zero. -/
structure Place where
  lineNumber : Nat
  column : Nat
  line : List Char
deriving DecidableEq

/-- The place of a position among lines of which the first has the given number, if there is one. -/
def locate (number : Nat) : List (List Char) → Nat → Option Place
  | [], _ => none
  | line :: lines, position =>
    if position < line.length then some ⟨number, position, line⟩
    else locate (number + 1) lines (position - line.length)

/-- The line without the white space at its end. -/
def trimEnd (line : List Char) : List Char := (line.reverse.dropWhile isSpace).reverse

end DataExpr.Text
