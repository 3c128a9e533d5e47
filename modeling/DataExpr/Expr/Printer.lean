import DataExpr.Expr
import DataExpr.Text.Literal

/-!
# Printing of expression trees

`Expr.print` writes a tree as text that reads back as a tree of the same shape.  Parentheses stand
only where the operators need them: an alternation binds weakest, a sequence and the postfix
operators `&` and `!` bind tighter, and everything else is atomic (`Expr.strength`).
-/

namespace DataExpr

/-- A literal as it is written; a name that is no identifier is written as a string. -/
def Literal.print : Literal → String
  | str s => Text.literal s
  | int n => toString n.toInt
  | ident name => if Text.isIdentifier name then name else Text.literal name
  | placeholder i => "<" ++ toString i.toNat ++ ">"

namespace Expr

/-- How tightly a node binds: alternations 0, sequences and postfix operators 1, all others 2. -/
def strength : Expr → Nat
  | ⟨.alt .., _⟩ => 0
  | ⟨.seq .., _⟩ | ⟨.lookahead _, _⟩ | ⟨.cut _, _⟩ => 1
  | _ => 2

/-- The text of an operand, in parentheses if the node binds weaker than the place needs. -/
def parenthesized (needed strength : Nat) (text : String) : String :=
  if strength < needed then "(" ++ text ++ ")" else text

/-- The text of a rest entry; a space keeps a dot from joining the run of three. -/
def afterDots (text : String) : String :=
  if text.toList.head? = some '.' then "... " ++ text else "..." ++ text

/-- The question mark of what may be absent. -/
def questionMark (optional : Bool) : String := if optional then "?" else ""

mutual

/-- The tree as text. -/
def print : Expr → String
  | ⟨.alt l r, _⟩ =>
    parenthesized 0 l.strength (print l) ++ " | " ++ parenthesized 1 r.strength (print r)
  | ⟨.seq l r, _⟩ =>
    parenthesized 1 l.strength (print l) ++ " " ++ parenthesized 2 r.strength (print r)
  | ⟨.lookahead e, _⟩ => parenthesized 1 e.strength (print e) ++ " &"
  | ⟨.cut e, _⟩ => parenthesized 1 e.strength (print e) ++ " !"
  | ⟨.object es, _⟩ => "\x7b" ++ ", ".intercalate (printObject es) ++ "\x7d"
  | ⟨.array es, _⟩ => "[" ++ ", ".intercalate (printArray es) ++ "]"
  | ⟨.key k optional, _⟩ => "." ++ k.print ++ questionMark optional
  | ⟨.index i optional, _⟩ => "." ++ i.print ++ questionMark optional
  | ⟨.slice a b, _⟩ =>
    ".[" ++ (a.map Literal.print).getD "" ++ ":" ++ (b.map Literal.print).getD "" ++ "]"
  | ⟨.spread, _⟩ => "*"
  | ⟨.descent, _⟩ => "**"
  | ⟨.self, _⟩ => "_"
  | ⟨.literal l, _⟩ => l.print

/-- The entries of an object pattern, each as text. -/
def printObject : List ObjectEntry → List String
  | [] => []
  | .field k optional v :: es =>
    (k.print ++ questionMark optional ++ ": " ++ print v) :: printObject es
  | .rest e :: es => afterDots (print e) :: printObject es

/-- The entries of an array pattern, each as text. -/
def printArray : List ArrayEntry → List String
  | [] => []
  | .item e :: es => print e :: printArray es
  | .rest e :: es => afterDots (print e) :: printArray es

end

end Expr

end DataExpr
