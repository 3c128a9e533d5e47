import DataExpr.Pattern
import DataExpr.Text.Literal

/-!
# Patterns as text

`Pattern.print` writes a pattern in the notation of expressions where there is one, and as a name with
arguments where there is none.
-/

namespace DataExpr

/-- A key as it is written: an identifier as it is, any other text in quotes. -/
def keyText (key : String) : String := if Text.isIdentifier key then key else Text.quoted key

/-- The question mark of what may be absent. -/
def optionalMark (optional : Bool) : String := if optional then "?" else ""

/-- The notation of a regular expression. -/
def RegexPattern.print (r : RegexPattern) : String :=
  "/" ++ r.source ++ "/" ++ if r.isGlobal then "g" else ""

/-- The match with the sort of its value, for listings. -/
def Match.listing (m : Match) : String := "Match \x7b value: " ++ m.value.listing ++ ", .. \x7d"

namespace Pattern

/-- What a listing shows for a test or a view of the host. -/
def listing? : Pattern → Option String
  | satisfying p => some ("Predicate(" ++ p.name ++ ")")
  | lens l => some ("Lens(" ++ l.name ++ ")")
  | _ => none

/-- Whether the pattern is an alternative of several branches. -/
def isChoice : Pattern → Bool
  | alt (_ :: _ :: _) => true
  | _ => false

/-- Whether the pattern needs parentheses behind another one in a sequence. -/
def isCompound : Pattern → Bool
  | seq (_ :: _ :: _) | alt (_ :: _ :: _) | lookahead _ | limit .. => true
  | _ => false

/-- The text, in parentheses if asked for. -/
def wrapped (parentheses : Bool) (text : String) : String :=
  if parentheses then "(" ++ text ++ ")" else text

/-- The text of a rest; a space keeps a dot from joining the run of three. -/
def afterThreeDots (text : String) : String :=
  if text.toList.head? = some '.' then "... " ++ text else "..." ++ text

mutual

/-- The pattern as text. -/
def print : Pattern → String
  | self => "_"
  | fail => "fail"
  | satisfying p => "where(" ++ p.name ++ ")"
  | value v => v.text
  | key name optional => "." ++ keyText name ++ optionalMark optional
  | index i optional => "." ++ toString i.toInt ++ optionalMark optional
  | slice start stop =>
    ".[" ++ (start.elim "" (toString ·.toInt)) ++ ":" ++ (stop.elim "" (toString ·.toInt)) ++ "]"
  | regex r => r.print
  | lens l => "lens(" ++ l.name ++ ")"
  | spread => "*"
  | descend n => if n = 1 then "**" else "recursive(" ++ toString n ++ ")"
  | seq [] => "_"
  | seq (p :: ps) => " ".intercalate (wrapped p.isChoice (print p) :: printOperands ps)
  | alt [] => "fail"
  | alt (p :: ps) => " | ".intercalate (printBranches (p :: ps))
  | lookahead p => wrapped p.isChoice (print p) ++ " &"
  | limit p n =>
    if n = 1 then wrapped p.isChoice (print p) ++ " !"
    else "limit(" ++ print p ++ ", " ++ toString n ++ ")"
  | gather p _ => "collect(" ++ print p ++ ")"
  | object fields rest => "\x7b" ++ ", ".intercalate (printFields fields ++ printRest rest) ++ "\x7d"
  | array items rest => "[" ++ ", ".intercalate (printItems items ++ printRest rest) ++ "]"
  | arrayOf p => "array_of(" ++ print p ++ ")"

/-- The parts of a sequence after the first. -/
def printOperands : List Pattern → List String
  | [] => []
  | p :: ps => wrapped p.isCompound (print p) :: printOperands ps

/-- The branches of an alternative. -/
def printBranches : List Pattern → List String
  | [] => []
  | p :: ps => wrapped p.isChoice (print p) :: printBranches ps

/-- The items of an array pattern. -/
def printItems : List Pattern → List String
  | [] => []
  | p :: ps => print p :: printItems ps

/-- The fields of an object pattern. -/
def printFields : List (Field Pattern) → List String
  | [] => []
  | ⟨name, optional, p⟩ :: fields =>
    (keyText name ++ optionalMark optional ++ ": " ++ print p) :: printFields fields

/-- The rest of a shape, if there is one. -/
def printRest : Option Pattern → List String
  | none => []
  | some p => [afterThreeDots (print p)]

end

end Pattern

end DataExpr
