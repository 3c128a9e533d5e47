import DataExpr.Expr.Parser
import DataExpr.Pattern
import DataExpr.Pattern.CompileError

/-!
# From expressions to patterns

`Expr.compile` gives the pattern that a tree denotes.  Placeholders refer to `Item`s of the host: as a
whole expression an item is a value to be equal to, a predicate, a regular expression or a pattern of
its own, and where a key or a number is needed it must be a text or an integer.

Nested alternatives become one alternative with many branches, and nested sequences one sequence, but
a pattern that a placeholder brings in stays one part.  To this end a part of the tree is compiled to
an `Operand`, which keeps the branches or steps apart until it is known what stands around it.
Errors are found from left to right, and the first one is reported.
-/

namespace DataExpr

/-- What the host supplies for a placeholder. -/
inductive Item where
  | value (v : Value)
  | predicate (p : Predicate)
  | regex (r : RegexPattern)
  | pattern (p : Pattern)

namespace Item

/-- What the item is, for messages. -/
def describe : Item → String
  | value (.str _) => "a string"
  | value (.int _) => "an integer"
  | value _ => "a value"
  | predicate _ => "a predicate"
  | regex _ => "a regex"
  | pattern _ => "a pattern"

/-- The pattern of the item as a whole expression. -/
def toPattern : Item → Pattern
  | value v => .value v
  | predicate p => .satisfying p
  | regex r => .regex r
  | pattern p => p

end Item

/-- What the literal is, for messages. -/
def Literal.describe : Literal → String
  | str _ => "string"
  | int _ => "integer"
  | ident _ => "identifier"
  | placeholder _ => "placeholder"

/-! ### Operands -/

/-- A compiled part of an expression.  Alternatives and sequences keep their parts. -/
inductive Operand where
  | branches (ps : List Pattern)
  | steps (ps : List Pattern)
  | atom (p : Pattern)

namespace Operand

/-- The pattern of the part as a whole. -/
def pattern : Operand → Pattern
  | branches ps => .alt ps
  | steps ps => .seq ps
  | atom p => p

/-- The branches of the part where it stands in an alternative. -/
def asBranches : Operand → List Pattern
  | branches ps => ps
  | other => [other.pattern]

/-- The steps of the part where it stands in a sequence. -/
def asSteps : Operand → List Pattern
  | steps ps => ps
  | other => [other.pattern]

end Operand

namespace Expr

/-! ### Placeholders -/

/-- The outcome of compiling a part of an expression. -/
abbrev Compiled := Except CompileError

/-- The item of a placeholder. -/
def itemAt (items : List Item) (index : UInt64) (span : Span) : Compiled Item :=
  match items[index.toNat]? with
  | some item => .ok item
  | none => .error ⟨.missingInterpolation index items.length, span⟩

/-- The pattern of a key: a text names a key, and an integer item is a position. -/
def keyPattern (items : List Item) (key : Literal) (optional : Bool) (span : Span) :
    Compiled Pattern :=
  match key with
  | .ident name | .str name => .ok (.key name optional)
  | .placeholder i => do
    match ← itemAt items i span with
    | .value (.str name) => return .key name optional
    | .value (.int n) => return .index n optional
    | other => .error ⟨.invalidInterpolation i other.describe "a key", span⟩
  | .int _ => .error ⟨.invalidLiteral key.describe "a key", span⟩

/-- The key of a field of an object pattern. -/
def fieldKey (items : List Item) (key : Literal) (span : Span) : Compiled String :=
  match key with
  | .ident name | .str name => .ok name
  | .int n => .ok (toString n.toInt)
  | .placeholder i => do
    match ← itemAt items i span with
    | .value (.str name) => return name
    | .value (.int n) => return toString n.toInt
    | other => .error ⟨.invalidInterpolation i other.describe "an object key", span⟩

/-- The number in a place that needs one. -/
def number (items : List Item) (l : Literal) (position : String) (span : Span) : Compiled Int64 :=
  match l with
  | .int n => .ok n
  | .placeholder i => do
    match ← itemAt items i span with
    | .value (.int n) => return n
    | other => .error ⟨.invalidInterpolation i other.describe position, span⟩
  | .str _ | .ident _ => .error ⟨.invalidLiteral l.describe position, span⟩

/-- The number in a place that may be empty. -/
def number? (items : List Item) (l : Option Literal) (position : String) (span : Span) :
    Compiled (Option Int64) :=
  match l with
  | none => .ok none
  | some l => some <$> number items l position span

/-- The pattern of a literal as a whole expression. -/
def literalPattern (items : List Item) (l : Literal) (span : Span) : Compiled Pattern :=
  match l with
  | .str s => .ok (.value (.str s))
  | .int n => .ok (.value (.int n))
  | .ident name => .error ⟨.bareIdentifier name, span⟩
  | .placeholder i => Item.toPattern <$> itemAt items i span

/-! ### Trees -/

mutual

/-- The pattern of a tree, its branches or steps kept apart. -/
def operand (items : List Item) : Expr → Compiled Operand
  | ⟨.alt l r, _⟩ => do
    let left ← operand items l
    let right ← operand items r
    return .branches (left.asBranches ++ right.asBranches)
  | ⟨.seq l r, _⟩ => do
    let left ← operand items l
    let right ← operand items r
    return .steps (left.asSteps ++ right.asSteps)
  | ⟨.lookahead e, _⟩ => return .atom (.lookahead (← operand items e).pattern)
  | ⟨.cut e, _⟩ => return .atom (← operand items e).pattern.cut
  | ⟨.object es, _⟩ => do
    let (fields, rest) ← objectParts items es false
    return .atom (.object fields rest)
  | ⟨.array es, _⟩ => do
    let (elements, rest) ← arrayParts items es
    return .atom (.array elements rest)
  | ⟨.key k optional, span⟩ => return .atom (← keyPattern items k optional span)
  | ⟨.index i optional, span⟩ => return .atom (.index (← number items i "an index" span) optional)
  | ⟨.slice a b, span⟩ => do
    let start ← number? items a "a slice bound" span
    let stop ← number? items b "a slice bound" span
    return .atom (.slice start stop)
  | ⟨.spread, _⟩ => return .atom .spread
  | ⟨.descent, _⟩ => return .atom (.descend 1)
  | ⟨.self, _⟩ => return .atom .self
  | ⟨.literal l, span⟩ => return .atom (← literalPattern items l span)

/-- The fields and the rest of an object pattern; a second rest is refused. -/
def objectParts (items : List Item) :
    List ObjectEntry → Bool → Compiled (List (Field Pattern) × Option Pattern)
  | [], _ => return ([], none)
  | .field k optional e :: es, hasRest => do
    let key ← fieldKey items k e.span
    let p := (← operand items e).pattern
    let (fields, rest) ← objectParts items es hasRest
    return (⟨key, optional, p⟩ :: fields, rest)
  | .rest e :: es, hasRest => do
    if hasRest then throw ⟨.duplicateRest, e.span⟩
    let p := (← operand items e).pattern
    let (fields, _) ← objectParts items es true
    return (fields, some p)

/-- The items and the rest of an array pattern; a rest before the end is refused. -/
def arrayParts (items : List Item) : List ArrayEntry → Compiled (List Pattern × Option Pattern)
  | [] => return ([], none)
  | .item e :: es => do
    let p := (← operand items e).pattern
    let (ps, rest) ← arrayParts items es
    return (p :: ps, rest)
  | .rest e :: es => do
    if !es.isEmpty then throw ⟨.restNotLast, e.span⟩
    return ([], some (← operand items e).pattern)

end

/-- The pattern that a tree denotes. -/
def compile (e : Expr) (items : List Item) : Compiled Pattern :=
  Operand.pattern <$> operand items e

end Expr

/-- The pattern that a text denotes. -/
def Pattern.ofSource (source : String) (items : List Item) : Except SourceError Pattern :=
  match Expr.read source with
  | .error e => .error (.parse e)
  | .ok e =>
    match e.compile items with
    | .error err => .error (.compile err)
    | .ok p => .ok p

end DataExpr
