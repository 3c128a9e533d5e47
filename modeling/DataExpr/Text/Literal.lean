/-!
# String literals and identifiers of the expression language

Inside a string literal a backslash gives the next character a meaning: `\n` is a line break, `\t` a
tab, and a backslash or a quote after it stands for itself.  Any other pair is kept as it is written,
backslash included.  `Text.unescape` resolves these pairs and `Text.escape` writes a text so that
`unescape` gives it back (`unescape_escape`): only the quote and the backslash need a backslash, all
other characters may stand in a literal as they are.

An identifier is a letter, `_` or `$`, followed by letters, digits, `_` and `$`, all of them ASCII.
-/

namespace DataExpr.Text

/-! ### Escapes -/

/-- What a backslash and the given character stand for together. -/
def resolveEscape (c : Char) : List Char :=
  if c = 'n' then ['\n']
  else if c = 't' then ['\t']
  else if c = '\\' then ['\\']
  else if c = '"' then ['"']
  else ['\\', c]

/-- The text that the inside of a string literal stands for. -/
def unescape : List Char → List Char
  | [] => []
  | ['\\'] => ['\\']
  | '\\' :: c :: rest => resolveEscape c ++ unescape rest
  | c :: rest => c :: unescape rest

/-- How one character is written inside a string literal. -/
def escapeChar (c : Char) : List Char :=
  if c = '"' then ['\\', '"'] else if c = '\\' then ['\\', '\\'] else [c]

/-- The inside of a string literal for the given text. -/
def escape (cs : List Char) : List Char := cs.flatMap escapeChar

@[simp] theorem escape_nil : escape [] = [] := rfl

@[simp] theorem escape_cons (c : Char) (cs : List Char) :
    escape (c :: cs) = escapeChar c ++ escape cs := rfl

theorem unescape_cons_of_ne {c : Char} (h : c ≠ '\\') (cs : List Char) :
    unescape (c :: cs) = c :: unescape cs := by
  rw [unescape]
  · intro hc; exact absurd hc h
  · intro _ _ hc; exact absurd hc h

/-- Reading the inside of a literal gives back the text it was written for. -/
theorem unescape_escape (cs : List Char) : unescape (escape cs) = cs := by
  induction cs with
  | nil => rfl
  | cons c cs ih =>
    by_cases hq : c = '"'
    · simp [escapeChar, hq, unescape, resolveEscape, ih]
    · by_cases hb : c = '\\'
      · simp [escapeChar, hb, unescape, resolveEscape, ih]
      · simp [escapeChar, hq, hb, unescape_cons_of_ne hb, ih]

/-- The text as a string literal. -/
def literal (s : String) : String := String.ofList ('"' :: escape s.toList ++ ['"'])

/-! ### Identifiers -/

/-- Whether an identifier may begin with the character. -/
def isIdentStart (c : Char) : Bool := c.isAlpha || c == '_' || c == '$'

/-- Whether an identifier may go on with the character. -/
def isIdentPart (c : Char) : Bool := c.isAlphanum || c == '_' || c == '$'

/-- Whether the whole text is one identifier. -/
def isIdentifier (s : String) : Bool :=
  match s.toList with
  | [] => false
  | c :: cs => isIdentStart c && cs.all isIdentPart

end DataExpr.Text
