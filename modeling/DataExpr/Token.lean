import DataExpr.Span
import DataExpr.Text.Quoted

/-!
# Tokens

A `Token` is the smallest piece of an expression that means something: a number, a string, an
identifier, a placeholder for an item of the host, a run of dots or stars, or a punctuation mark,
together with the span of text it was read from.  Text that is none of these is an `error` token, and
`eof` marks the end.

`TokenKind.sameSort` compares two kinds by their sort alone; the length of a run of dots or stars is
part of its sort, the payload of a literal is not.
-/

namespace DataExpr

/-- What a token is. -/
inductive TokenKind where
  /-- An integer, its sign included. -/
  | int (n : Int64)
  /-- A string, its escapes resolved. -/
  | str (s : String)
  | ident (name : String)
  /-- A reference to the host's item of that number. -/
  | placeholder (index : UInt64)
  /-- A run of dots of that length. -/
  | dots (count : Nat)
  /-- A run of stars of that length. -/
  | stars (count : Nat)
  | question
  | bang
  | amp
  | pipe
  | leftParen
  | rightParen
  | leftBrace
  | rightBrace
  | leftBracket
  | rightBracket
  | comma
  | colon
  | underscore
  /-- Text that is no token. -/
  | error
  /-- The end of the text. -/
  | eof
deriving DecidableEq, Inhabited

namespace TokenKind

/-- Whether an operand of an expression can begin with this token. -/
def startsOperand : TokenKind → Bool
  | int _ | str _ | ident _ | placeholder _ | dots 1 | stars 1 | stars 2 => true
  | leftParen | leftBrace | leftBracket | underscore => true
  | _ => false

/-- The name of the kind in diagnostics. -/
def name : TokenKind → String
  | int _ => "integer"
  | str _ => "string"
  | ident _ => "identifier"
  | placeholder _ => "placeholder"
  | dots 1 => "`.`"
  | dots 3 => "`...`"
  | dots _ => "dots"
  | stars 1 => "`*`"
  | stars 2 => "`**`"
  | stars _ => "stars"
  | question => "`?`"
  | bang => "`!`"
  | amp => "`&`"
  | pipe => "`|`"
  | leftParen => "`(`"
  | rightParen => "`)`"
  | leftBrace => "`\x7b`"
  | rightBrace => "`\x7d`"
  | leftBracket => "`[`"
  | rightBracket => "`]`"
  | comma => "`,`"
  | colon => "`:`"
  | underscore => "`_`"
  | error => "invalid token"
  | eof => "end of input"

/-- The kind with its payload, for listings of tokens. -/
def listing : TokenKind → String
  | int n => "Int(" ++ toString n.toInt ++ ")"
  | str s => "Str(" ++ Text.quoted s ++ ")"
  | ident s => "Ident(" ++ s ++ ")"
  | placeholder i => "Placeholder(" ++ toString i.toNat ++ ")"
  | dots n => "Dots(" ++ toString n ++ ")"
  | stars n => "Stars(" ++ toString n ++ ")"
  | kind => kind.name

/-- Whether two kinds are of one sort: payloads do not count, lengths of runs do. -/
def sameSort : TokenKind → TokenKind → Bool
  | int _, int _ | str _, str _ | ident _, ident _ | placeholder _, placeholder _ => true
  | a, b => a == b

end TokenKind

/-- A token and the text it covers. -/
structure Token where
  kind : TokenKind
  span : Span
deriving DecidableEq, Inhabited

namespace Token

/-- A token that was read from no text. -/
def dummy (kind : TokenKind) : Token := ⟨kind, .dummy⟩

/-- The token and its place, for listings of tokens. -/
def listing (t : Token) : String := t.kind.listing ++ " @ " ++ t.span.text

end Token

/-- A list of tokens on one line, in brackets. -/
def Token.listingOf (tokens : List Token) : String :=
  "[" ++ ", ".intercalate (tokens.map Token.listing) ++ "]"

end DataExpr
