import DataExpr.Document.Token

/-!
# Reading of JSON documents

`Document.read?` reads a text that is one document with nothing but blanks around it.  The tokens of
the text are taken into account one after the other: a `Reader.State` is what has been read, namely
the arrays and objects that are still open (`Reader.Frame`) and what may come next, and `Reader.step`
adds a token to it.  The members of an object are put in ascending order of keys, and of members with
the same key the last one counts.

At most `Reader.maxDepth` arrays and objects may be open at once.
-/

namespace DataExpr.Document

namespace Reader

/-- An array or object whose end has not been read, at one of its values.  Items that are done are
kept latest first. -/
inductive Frame where
  | array (done : List Document)
  | object (done : Entries Document) (key : String)

/-- The open arrays and objects, the innermost first. -/
abbrev Stack := List Frame

/-- All that has been read of a document. -/
inductive State where
  /-- A value must come. -/
  | value (stack : Stack)
  /-- The first item of an array or its end must come. -/
  | firstItem (stack : Stack)
  /-- The first key of an object or its end must come. -/
  | firstKey (stack : Stack)
  /-- A key must come. -/
  | key (done : Entries Document) (stack : Stack)
  /-- The colon after a key must come. -/
  | colon (done : Entries Document) (key : String) (stack : Stack)
  /-- A value has ended; what it stands in may go on or end. -/
  | ended (d : Document) (stack : Stack)

/-- How many arrays and objects may be open at once. -/
def maxDepth : Nat := 127

/-- The state after the first token of a value. -/
def beginValue (stack : Stack) : Token → Option State
  | .scalar d => some (.ended d stack)
  | .arrayStart => if stack.length < maxDepth then some (.firstItem stack) else none
  | .objectStart => if stack.length < maxDepth then some (.firstKey stack) else none
  | _ => none

/-- The state after a key, if the token is one. -/
def beginMember (done : Entries Document) (stack : Stack) : Token → Option State
  | .scalar (.str key) => some (.colon done key stack)
  | _ => none

/-- The state after the token that follows a value. -/
def afterValue (d : Document) : Stack → Token → Option State
  | .array done :: stack, .comma => some (.value (.array (d :: done) :: stack))
  | .array done :: stack, .arrayEnd => some (.ended (.array (d :: done).reverse) stack)
  | .object done key :: stack, .comma => some (.key (done.insertSorted key d) stack)
  | .object done key :: stack, .objectEnd =>
    some (.ended (.object (done.insertSorted key d)) stack)
  | _, _ => none

/-- The state after one more token. -/
def step : State → Token → Option State
  | .value stack, t => beginValue stack t
  | .firstItem stack, .arrayEnd => some (.ended (.array []) stack)
  | .firstItem stack, t => beginValue (.array [] :: stack) t
  | .firstKey stack, .objectEnd => some (.ended (.object []) stack)
  | .firstKey stack, t => beginMember [] stack t
  | .key done stack, t => beginMember done stack t
  | .colon done key stack, .colon => some (.value (.object done key :: stack))
  | .colon .., _ => none
  | .ended d stack, t => afterValue d stack t

/-- The document that the tokens make up from a state on. -/
def run : State → List Token → Option Document
  | .ended d [], [] => some d
  | _, [] => none
  | state, t :: ts => (step state t).bind (run · ts)

end Reader

/-- The document that a text is, if it is one. -/
def read? (text : String) : Option Document :=
  (tokens? text.toList).bind (Reader.run (.value []))

end DataExpr.Document
