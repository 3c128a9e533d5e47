import DataExpr.Token
import DataExpr.Text.Literal
import DataExpr.Text.Utf8

/-!
# From text to tokens

`Token.scan` splits the text of an expression into tokens.  Blanks (space, tab, carriage return, line
feed) separate tokens and mean nothing else.  At any other character the longest token that begins
there is taken (`Lexeme.longest`), and the last token is always `eof`.

Reading never fails.  Text that begins no token becomes an `error` token:

* a number or placeholder that does not fit its range, in full;
* the quote and the complete items of a string that is not closed, an item being a character other
  than a quote or backslash, or a backslash with a character other than a line break;
* `<` and the digits after it when no `>` follows them;
* any other character alone.

`Lexeme.text_append_rest` says that a lexeme and the rest make up the text that was read, and
`Lexeme.text_ne_nil` that it covers at least one character; the scan ends because of these two.
-/

namespace DataExpr

/-! ### Lexemes -/

/-- A token read off the front of a text: its kind, the characters it covers and what follows. -/
structure Lexeme where
  kind : TokenKind
  text : List Char
  rest : List Char
deriving DecidableEq

namespace Lexeme

/-- The characters between tokens. -/
def isBlank (c : Char) : Bool := c == ' ' || c == '\t' || c == '\r' || c == '\n'

/-- The number that decimal digits stand for. -/
def natOfDigits (digits : List Char) : Nat :=
  digits.foldl (fun n d => 10 * n + (d.toNat - '0'.toNat)) 0

/-- An integer token, or an error token if the number takes more than 64 bits with its sign. -/
def integer (n : Int) : TokenKind :=
  if Int64.minValue.toInt ≤ n ∧ n ≤ Int64.maxValue.toInt then .int (Int64.ofInt n) else .error

/-- A placeholder token, or an error token if the number takes more than 64 bits. -/
def reference (n : Nat) : TokenKind :=
  if n < UInt64.size then .placeholder (UInt64.ofNat n) else .error

/-- An identifier token; the underscore alone is a mark of its own. -/
def word (text : List Char) : TokenKind :=
  if text = ['_'] then .underscore else .ident (String.ofList text)

/-- The complete items at the front of the inside of a string, and what follows them. -/
def stringItems : List Char → List Char × List Char
  | '\\' :: c :: rest =>
    if c = '\n' then ([], '\\' :: c :: rest)
    else ('\\' :: c :: (stringItems rest).1, (stringItems rest).2)
  | [] => ([], [])
  | c :: rest =>
    if c = '"' ∨ c = '\\' then ([], c :: rest)
    else (c :: (stringItems rest).1, (stringItems rest).2)

/-- A string whose opening quote has been read. -/
def string (cs : List Char) : Lexeme :=
  match stringItems cs with
  | (items, '"' :: rest) =>
    ⟨.str (String.ofList (Text.unescape items)), '"' :: items ++ ['"'], rest⟩
  | (items, rest) => ⟨.error, '"' :: items, rest⟩

/-- A placeholder whose `<` has been read. -/
def angled (cs : List Char) : Lexeme :=
  match cs.takeWhile Char.isDigit, cs.dropWhile Char.isDigit with
  | d :: ds, '>' :: rest => ⟨reference (natOfDigits (d :: ds)), '<' :: d :: ds ++ ['>'], rest⟩
  | ds, rest => ⟨.error, '<' :: ds, rest⟩

/-- A negative number whose sign has been read. -/
def negative (cs : List Char) : Lexeme :=
  match cs.takeWhile Char.isDigit with
  | [] => ⟨.error, ['-'], cs⟩
  | d :: ds =>
    ⟨integer (-(natOfDigits (d :: ds) : Int)), '-' :: d :: ds, cs.dropWhile Char.isDigit⟩

/-- The longest run of characters with the property, the first of which is given. -/
def run (p : Char → Bool) (kind : List Char → TokenKind) (c : Char) (cs : List Char) : Lexeme :=
  ⟨kind (c :: cs.takeWhile p), c :: cs.takeWhile p, cs.dropWhile p⟩

/-- The token that is one punctuation mark, if the character is one. -/
def mark : Char → Option TokenKind
  | '?' => some .question
  | '!' => some .bang
  | '&' => some .amp
  | '|' => some .pipe
  | '(' => some .leftParen
  | ')' => some .rightParen
  | '\x7b' => some .leftBrace
  | '\x7d' => some .rightBrace
  | '[' => some .leftBracket
  | ']' => some .rightBracket
  | ',' => some .comma
  | ':' => some .colon
  | _ => none

/-- The longest token at the front of a text that does not begin with a blank. -/
def longest (c : Char) (cs : List Char) : Lexeme :=
  match mark c with
  | some kind => ⟨kind, [c], cs⟩
  | none =>
    if c = '.' then run (· == '.') (fun text => .dots text.length) c cs
    else if c = '*' then run (· == '*') (fun text => .stars text.length) c cs
    else if c = '-' then negative cs
    else if c = '<' then angled cs
    else if c = '"' then string cs
    else if c.isDigit then run Char.isDigit (fun text => integer (natOfDigits text)) c cs
    else if Text.isIdentStart c then run Text.isIdentPart word c cs
    else ⟨.error, [c], cs⟩

/-! ### A lexeme is a non-empty front of the text -/

theorem stringItems_append (cs : List Char) : (stringItems cs).1 ++ (stringItems cs).2 = cs := by
  fun_induction stringItems cs <;> simp_all

theorem string_text_append_rest (cs : List Char) :
    (string cs).text ++ (string cs).rest = '"' :: cs := by
  have h := stringItems_append cs
  unfold string
  split
  · rename_i items rest heq
    rw [heq] at h
    simp [← h]
  · rename_i items rest _ heq
    rw [heq] at h
    simp [← h]

theorem angled_text_append_rest (cs : List Char) :
    (angled cs).text ++ (angled cs).rest = '<' :: cs := by
  have h := List.takeWhile_append_dropWhile (p := Char.isDigit) (l := cs)
  unfold angled
  split
  · rename_i d ds rest h1 h2
    rw [h1, h2] at h
    simp [← h]
  · exact congrArg ('<' :: ·) h

theorem negative_text_append_rest (cs : List Char) :
    (negative cs).text ++ (negative cs).rest = '-' :: cs := by
  have h := List.takeWhile_append_dropWhile (p := Char.isDigit) (l := cs)
  unfold negative
  split
  · simp
  · rename_i d ds h1
    rw [h1] at h
    exact congrArg ('-' :: ·) h

/-- A lexeme and the rest make up the text that was read. -/
theorem text_append_rest (c : Char) (cs : List Char) :
    (longest c cs).text ++ (longest c cs).rest = c :: cs := by
  unfold longest
  split
  · simp
  · split
    · simp [run]
    split
    · simp [run]
    split
    · subst c; exact negative_text_append_rest cs
    split
    · subst c; exact angled_text_append_rest cs
    split
    · subst c; exact string_text_append_rest cs
    split
    · simp [run]
    split
    · simp [run]
    · simp

theorem string_text_ne_nil (cs : List Char) : (string cs).text ≠ [] := by
  unfold string; split <;> simp

theorem angled_text_ne_nil (cs : List Char) : (angled cs).text ≠ [] := by
  unfold angled; split <;> simp

theorem negative_text_ne_nil (cs : List Char) : (negative cs).text ≠ [] := by
  unfold negative; split <;> simp

/-- A lexeme covers at least one character. -/
theorem text_ne_nil (c : Char) (cs : List Char) : (longest c cs).text ≠ [] := by
  unfold longest
  split
  · simp
  · split
    · simp [run]
    split
    · simp [run]
    split
    · exact negative_text_ne_nil cs
    split
    · exact angled_text_ne_nil cs
    split
    · exact string_text_ne_nil cs
    split
    · simp [run]
    split
    · simp [run]
    · simp

/-- What follows a lexeme is shorter than the text it was read from. -/
theorem rest_length_lt (c : Char) (cs : List Char) :
    (longest c cs).rest.length < (c :: cs).length := by
  have h := congrArg List.length (text_append_rest c cs)
  have hpos := List.length_pos_iff.2 (text_ne_nil c cs)
  rw [List.length_append] at h
  omega

end Lexeme

/-! ### The scan -/

namespace Token

/-- The tokens of a text that begins at the given byte offset. -/
def scanFrom (offset : Nat) : List Char → List Token
  | [] => [⟨.eof, .ofRange offset offset⟩]
  | c :: cs =>
    if Lexeme.isBlank c then scanFrom (offset + c.utf8Size) cs
    else
      let lexeme := Lexeme.longest c cs
      let stop := offset + Text.utf8Length lexeme.text
      ⟨lexeme.kind, .ofRange offset stop⟩ :: scanFrom stop lexeme.rest
termination_by cs => cs.length
decreasing_by
  · simp
  · exact Lexeme.rest_length_lt c cs

/-- The tokens of the text of an expression, `eof` last. -/
def scan (source : String) : List Token := scanFrom 0 source.toList

end Token

end DataExpr
