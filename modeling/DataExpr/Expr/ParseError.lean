import DataExpr.Token

/-!
# Errors of reading an expression

A `ParseError` says what is wrong (`ParseError.Kind`), which token is to blame (its span) and which
construct was being read, if any (`ParseError.Context`).  `ParseError.message` is the text for people.
-/

namespace DataExpr

/-- The construct that was being read when an error was found. -/
inductive ParseError.Context where
  | group
  | objectPattern
  | arrayPattern
  | slice
  | key
deriving DecidableEq

/-- What is wrong. -/
inductive ParseError.Kind where
  | emptyExpression
  | unexpectedToken (expected : String) (found : TokenKind)
  | invalidToken
  | trailingInput (found : TokenKind)
  | bareIdentifier (name : String)
  | tooManyStars (count : Nat)
  | unexpectedDots (count : Nat)
deriving DecidableEq

/-- An error, the token it is about and the construct around it. -/
structure ParseError where
  kind : ParseError.Kind
  span : Span
  context : Option ParseError.Context
deriving DecidableEq

namespace ParseError

/-- What a message says after "while parsing". -/
def Context.phrase : Context → String
  | group => "a parenthesized expression"
  | objectPattern => "an object pattern"
  | arrayPattern => "an array pattern"
  | slice => "a slice"
  | key => "a key access"

/-- The message without the construct around it. -/
def Kind.message : Kind → String
  | emptyExpression => "empty expression"
  | unexpectedToken expected found => "expected " ++ expected ++ ", found " ++ found.name
  | invalidToken => "invalid token"
  | trailingInput found => "unexpected input after expression: " ++ found.name
  | bareIdentifier name =>
    "bare identifier `" ++ name ++ "`; use `." ++ name ++ "` for a key or \"" ++ name ++
      "\" for a string"
  | tooManyStars count =>
    toString count ++ " stars in a row; use `*` for spread or `**` for recursive descent"
  | unexpectedDots count => "unexpected run of " ++ toString count ++ " dots"

/-- The message for people. -/
def message (e : ParseError) : String :=
  match e.context with
  | none => e.kind.message
  | some context => e.kind.message ++ " while parsing " ++ context.phrase

/-- The error with a construct around it, unless a narrower one is known already. -/
def within (e : ParseError) (context : Context) : ParseError :=
  { e with context := e.context.or (some context) }

end ParseError

/-- The error that something else was expected in the place of the token. -/
def Token.unexpected (t : Token) (expected : String) : ParseError :=
  match t.kind with
  | .error => ⟨.invalidToken, t.span, none⟩
  | found => ⟨.unexpectedToken expected found, t.span, none⟩

end DataExpr
