import DataExpr.Expr.ParseError

/-!
# Cursors

A `Cursor` is a place in a list of tokens: the tokens passed, latest first, the current token, and
those still ahead.  There always is a current token, and at the last token `advance` stays where it
is, so a reader can look at the current token without asking whether there is one.  No operation
changes the tokens themselves (`tokens_advance`).
-/

namespace DataExpr

/-- A place in a non-empty list of tokens. -/
structure Cursor where
  /-- The tokens before the current one, the latest first. -/
  passed : List Token
  current : Token
  ahead : List Token

namespace Cursor

/-- The first place in a list of tokens, if the list has any. -/
def ofTokens? : List Token → Option Cursor
  | [] => none
  | t :: ts => some ⟨[], t, ts⟩

/-- All tokens of the list that the cursor is in. -/
def tokens (c : Cursor) : List Token := c.passed.reverse ++ c.current :: c.ahead

/-- The number of tokens before the current one. -/
def position (c : Cursor) : Nat := c.passed.length

/-- The span of the token before the current one. -/
def previousSpan (c : Cursor) : Span :=
  match c.passed with
  | [] => .dummy
  | t :: _ => t.span

/-- Whether the current token marks the end of the text. -/
def isAtEnd (c : Cursor) : Bool := c.current.kind == .eof

/-- The next place; the last token is never left. -/
def advance (c : Cursor) : Cursor :=
  match c.ahead with
  | [] => c
  | t :: ts => ⟨c.current :: c.passed, t, ts⟩

/-- Whether the current token is of the same sort. -/
def check (c : Cursor) (kind : TokenKind) : Bool := c.current.kind.sameSort kind

/-- The next place if the current token is of the sort. -/
def eat? (c : Cursor) (kind : TokenKind) : Option Cursor :=
  if c.check kind then some c.advance else none

/-- The error that something else was expected in the place of the current token. -/
def unexpected (c : Cursor) (expected : String) : ParseError := c.current.unexpected expected

/-- The next place if the current token is of the sort, and the error that says so if it is not. -/
def expect (c : Cursor) (kind : TokenKind) : Except ParseError Cursor :=
  match c.eat? kind with
  | some next => .ok next
  | none => .error (c.unexpected kind.name)

/-- Moving on keeps the tokens. -/
@[simp] theorem tokens_advance (c : Cursor) : c.advance.tokens = c.tokens := by
  rcases c with ⟨passed, current, ahead⟩
  cases ahead <;> simp [advance, tokens]

/-- The place stays inside the list. -/
theorem position_lt (c : Cursor) : c.position < c.tokens.length := by
  simp [position, tokens]

end Cursor

end DataExpr
