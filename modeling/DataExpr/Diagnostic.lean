import DataExpr.Pattern.CompileError
import DataExpr.Text.Lines
import DataExpr.Text.Utf8
import DataExpr.Text.Width

/-!
# Diagnostics

A `Diagnostic` is a message about a piece of a text.  `Diagnostic.render` writes it for people: the
message, and below it the line that the piece lies in, with the piece underlined and a label at the
end of an arrow that begins in the middle of it.

Spans count bytes while people count characters, so a span is first turned into a range of characters
(`CharRange.ofSpan`).  The range is never empty and never leaves a text that has characters
(`CharRange.stop_le_length`), whatever the span is: a span at or past the end points at the last
character.

Underline and arrow follow the columns of the line above them, in which a character may take no
column, one or two, and a tab takes those up to the next multiple of four.  A piece that goes on past
its line is underlined up to the end of the line.
-/

namespace DataExpr

/-! ### Ranges of characters -/

/-- The characters from `start` up to, but not including, `stop`. -/
structure CharRange where
  start : Nat
  stop : Nat
  start_lt_stop : start < stop

namespace CharRange

/-- The characters of a text that a span of bytes points at. -/
def ofSpan (cs : List Char) (span : Span) : CharRange :=
  let start := min (Text.charsBefore cs span.start) (cs.length - 1)
  let stop := max (start + 1) (min (Text.charsBefore cs span.stop) (max cs.length (start + 1)))
  ⟨start, stop, Nat.lt_of_succ_le (Nat.le_max_left ..)⟩

/-- The range stays inside a text that has characters. -/
theorem stop_le_length {cs : List Char} (h : cs ≠ []) (span : Span) :
    (ofSpan cs span).stop ≤ cs.length := by
  have := List.length_pos_iff.2 h
  simp only [ofSpan]
  omega

end CharRange

/-! ### Columns -/

namespace Text

/-- How far apart the columns are that a tab leads to. -/
def tabWidth : Nat := 4

/-- The number of columns of the character at that place in a line. -/
def widthAt (position : Nat) (c : Char) : Nat :=
  if c = '\t' then (position / tabWidth + 1) * tabWidth - position
  else if isSpace c then 1
  else width c

/-- The number of columns at a place in a line; past the end every place has one. -/
def columnsAt (line : List Char) (position : Nat) : Nat :=
  ((line.drop position).head?.map (widthAt position)).getD 1

/-- The line with white space of every kind as spaces. -/
def spaced (line : List Char) : List Char :=
  line.zipIdx.flatMap fun (c, position) =>
    if isSpace c then List.replicate (widthAt position c) ' ' else [c]

/-- A row below a line: for each of the first `n` places a character, and another one to fill what
columns the place has besides the first. -/
def rowBelow (line : List Char) (n : Nat) (glyphs : Nat → Char × Char) : List Char :=
  (List.range n).flatMap fun position =>
    (List.replicate (columnsAt line position) (glyphs position).2).set 0 (glyphs position).1

end Text

/-! ### Diagnostics -/

/-- A message about a piece of a text. -/
structure Diagnostic where
  source : String
  span : Span
  message : String
  /-- What the arrow says. -/
  label : String

namespace Diagnostic

/-- The underline from `start` to `stop`, with the beginning of the arrow in its middle. -/
def underlineAt (start stop middle position : Nat) : Char × Char :=
  if position = middle then ('┬', '─')
  else if start ≤ position ∧ position < stop then ('─', '─')
  else (' ', ' ')

/-- The arrow that turns right below the middle of the underline. -/
def arrowAt (middle position : Nat) : Char × Char :=
  if position = middle then ('╰', '─')
  else if middle < position then ('─', '─')
  else (' ', ' ')

/-- The lines that show a piece of `length` characters from a place on, with a label. -/
def excerpt (place : Text.Place) (length : Nat) (label : String) : List String :=
  let start := place.column
  let stop := min (start + length) place.line.length
  let middle := (start + stop) / 2
  let line := Text.trimEnd place.line
  let number := toString (place.lineNumber + 1)
  let margin := String.ofList (List.replicate (number.length + 2) ' ')
  let row (glyphs : Nat → Char × Char) : String :=
    margin ++ "│ " ++ String.ofList (Text.rowBelow line (stop + 2) glyphs)
  [margin ++ "╭─[<unknown>:" ++ number ++ ":" ++ toString (start + 1) ++ "]",
    margin ++ "│",
    " " ++ number ++ " │ " ++ String.ofList (Text.spaced line),
    row (underlineAt start stop middle),
    row (arrowAt middle) ++ " " ++ label,
    String.ofList (List.replicate (number.length + 2) '─') ++ "╯"]

/-- The diagnostic for people.  A text without characters has nothing to show. -/
def render (d : Diagnostic) : String :=
  let cs := d.source.toList
  let range := CharRange.ofSpan cs d.span
  let shown :=
    match Text.locate 0 (Text.lines cs) range.start with
    | none => []
    | some place => excerpt place (range.stop - range.start) d.label
  String.join ((("Error: " ++ d.message) :: shown).map (· ++ "\n"))

end Diagnostic

/-! ### Errors of the expression language -/

/-- What an arrow to the erroneous text says. -/
def CompileError.label (e : CompileError) : String :=
  match e.kind with
  | .bareIdentifier _ => "neither a key nor a string"
  | .missingInterpolation .. => "no item for this placeholder"
  | .invalidInterpolation .. => "interpolated item used here"
  | .duplicateRest => "second rest entry"
  | .restNotLast => "rest entry before the end"
  | .invalidLiteral .. => "literal used here"

namespace SourceError

/-- What an arrow to the erroneous text says. -/
def label : SourceError → String
  | parse _ => "here"
  | compile e => e.label

/-- The diagnostic of an error in the given text. -/
def diagnostic (source : String) (e : SourceError) : Diagnostic :=
  ⟨source, e.span, e.message, e.label⟩

end SourceError

end DataExpr
