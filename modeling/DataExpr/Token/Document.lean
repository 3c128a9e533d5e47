import DataExpr.Document.Tagged
import DataExpr.Token

/-!
# Kinds of tokens as documents

`TokenKind.toDocument` writes the kind of a token as a document that names it, and
`TokenKind.ofDocument?` reads such a document.
-/

namespace DataExpr.TokenKind

/-- The kinds without data of their own, with their names in documents. -/
def bare : List (String × TokenKind) :=
  [("Question", question), ("Bang", bang), ("Amp", amp), ("Pipe", pipe), ("LParen", leftParen),
    ("RParen", rightParen), ("LBrace", leftBrace), ("RBrace", rightBrace),
    ("LBracket", leftBracket), ("RBracket", rightBracket), ("Comma", comma), ("Colon", colon),
    ("Underscore", underscore), ("Error", error), ("Eof", eof)]

/-- The kind as a document. -/
def toDocument : TokenKind → Document
  | int n => .tagged "Int" (.int n.toInt)
  | str s => .tagged "Str" (.str s)
  | ident name => .tagged "Ident" (.str name)
  | placeholder i => .tagged "Placeholder" (.int i.toNat)
  | dots n => .tagged "Dots" (.int n)
  | stars n => .tagged "Stars" (.int n)
  | k => .ofOption ((bare.find? (·.2 == k)).map (.str ·.1))

/-- The kind that a document is, if it is one. -/
def ofDocument? (d : Document) : Option TokenKind := do
  match ← d.tagged? with
  | ("Int", n) => int <$> n.toInt64?
  | ("Str", s) => str <$> s.toStr?
  | ("Ident", name) => ident <$> name.toStr?
  | ("Placeholder", i) => placeholder <$> i.toUInt64?
  | ("Dots", n) => dots <$> n.toNat?
  | ("Stars", n) => stars <$> n.toNat?
  | (name, _) => bare.lookup name

end DataExpr.TokenKind
