import DataExpr.Span

/-!
# Expression trees

An `Expr` is a node (`Expr.Kind`) with the span of text it was read from.  A node is one of the
operators `|`, juxtaposition, `&` and `!`, the pattern of an object or of an array, one of the ways to
reach into a value, or a literal.

Two trees have the same shape when they agree in all but their spans: `Expr.sameShape`.  Equality
with the spans is `Expr.equal`.  Both are instances of `Expr.agree`, which compares two trees with
any comparison of spans.
-/

namespace DataExpr

/-- A leaf that stands for a text, a number, a name or an item of the host. -/
inductive Literal where
  | str (s : String)
  | int (n : Int64)
  | ident (name : String)
  /-- The host's item of that number. -/
  | placeholder (index : UInt64)
deriving DecidableEq, Inhabited

mutual

/-- A node of an expression and the text it was read from. -/
inductive Expr where
  | mk (kind : Expr.Kind) (span : Span)

/-- What a node is. -/
inductive Expr.Kind where
  /-- The matches of the left operand, then those of the right. -/
  | alt (left right : Expr)
  /-- The right operand, run on what the left one matches. -/
  | seq (left right : Expr)
  /-- Lookahead: `e &`. -/
  | lookahead (e : Expr)
  /-- The first match alone: `e !`. -/
  | cut (e : Expr)
  | object (entries : List Expr.ObjectEntry)
  | array (entries : List Expr.ArrayEntry)
  /-- A key of a map: `.key` or `.key?`. -/
  | key (key : Literal) (optional : Bool)
  /-- A position in a list: `.3` or `.-1?`. -/
  | index (index : Literal) (optional : Bool)
  /-- A part of a list or text: `.[start:stop]`. -/
  | slice (start stop : Option Literal)
  /-- All children: `*`. -/
  | spread
  /-- All nodes below and including this one: `**`. -/
  | descent
  /-- The value itself: `_`. -/
  | self
  | literal (l : Literal)

/-- An entry of an object pattern. -/
inductive Expr.ObjectEntry where
  | field (key : Literal) (optional : Bool) (value : Expr)
  /-- The pattern for all fields that have no entry. -/
  | rest (e : Expr)

/-- An entry of an array pattern. -/
inductive Expr.ArrayEntry where
  | item (e : Expr)
  /-- The pattern for all elements past the items. -/
  | rest (e : Expr)

end

instance : Inhabited Expr := ⟨⟨.self, .dummy⟩⟩

namespace Expr

/-- The node without its span. -/
def kind : Expr → Kind
  | ⟨kind, _⟩ => kind

/-- The text that the node was read from. -/
def span : Expr → Span
  | ⟨_, span⟩ => span

@[simp] theorem kind_mk (k : Kind) (s : Span) : kind ⟨k, s⟩ = k := rfl

@[simp] theorem span_mk (k : Kind) (s : Span) : span ⟨k, s⟩ = s := rfl

/-- The name of the node in diagnostics. -/
def Kind.name : Kind → String
  | alt .. => "alternation"
  | seq .. => "sequence"
  | lookahead _ => "lookahead"
  | cut _ => "cut"
  | object _ => "object pattern"
  | array _ => "array pattern"
  | key .. => "key"
  | index .. => "index"
  | slice .. => "slice"
  | spread => "spread"
  | descent => "recursive descent"
  | self => "identity"
  | literal _ => "literal"

/-! ### Comparison -/

mutual

/-- Whether two trees agree, their spans being compared as given. -/
def agree (same : Span → Span → Bool) : Expr → Expr → Bool
  | ⟨k, s⟩, ⟨k', s'⟩ => same s s' && Kind.agree same k k'

/-- Whether two nodes agree, the spans below them being compared as given. -/
def Kind.agree (same : Span → Span → Bool) : Kind → Kind → Bool
  | .alt l r, .alt l' r' => agree same l l' && agree same r r'
  | .seq l r, .seq l' r' => agree same l l' && agree same r r'
  | .lookahead e, .lookahead e' => agree same e e'
  | .cut e, .cut e' => agree same e e'
  | .object es, .object es' => agreeObject same es es'
  | .array es, .array es' => agreeArray same es es'
  | .key k o, .key k' o' => k == k' && o == o'
  | .index i o, .index i' o' => i == i' && o == o'
  | .slice a b, .slice a' b' => a == a' && b == b'
  | .spread, .spread => true
  | .descent, .descent => true
  | .self, .self => true
  | .literal l, .literal l' => l == l'
  | _, _ => false

/-- Whether two lists of object entries agree entry by entry. -/
def agreeObject (same : Span → Span → Bool) : List ObjectEntry → List ObjectEntry → Bool
  | [], [] => true
  | .field k o v :: es, .field k' o' v' :: es' =>
    k == k' && o == o' && agree same v v' && agreeObject same es es'
  | .rest e :: es, .rest e' :: es' => agree same e e' && agreeObject same es es'
  | _, _ => false

/-- Whether two lists of array entries agree entry by entry. -/
def agreeArray (same : Span → Span → Bool) : List ArrayEntry → List ArrayEntry → Bool
  | [], [] => true
  | .item e :: es, .item e' :: es' => agree same e e' && agreeArray same es es'
  | .rest e :: es, .rest e' :: es' => agree same e e' && agreeArray same es es'
  | _, _ => false

end

/-- Whether two trees are equal, spans aside. -/
def sameShape (a b : Expr) : Bool := agree (fun _ _ => true) a b

/-- Whether two trees are equal, spans included. -/
def equal (a b : Expr) : Bool := agree (· == ·) a b

end Expr

end DataExpr
