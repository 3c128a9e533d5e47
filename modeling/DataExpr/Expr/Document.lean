import DataExpr.Document.Tagged
import DataExpr.Expr

/-!
# Expression trees as documents

`Expr.toDocument` writes a tree as a JSON document, for people to inspect and for programs to
exchange.  A node is an object with its kind and its span, in this order, and a kind is a document
that names it.  `Expr.ofDocument?` reads such a document; the members of an object may only come in
the order in which they are written, which is the ascending order of keys.
-/

namespace DataExpr

namespace Span

/-- The start and the end, as offsets in bytes. -/
def toDocument (s : Span) : Document := .object [("start", .int s.start), ("end", .int s.stop)]

/-- The span that a document is, if it is one. -/
def ofDocument? (d : Document) : Option Span := do
  return ⟨← (← d.member? "start").toNat?, ← (← d.member? "end").toNat?⟩

end Span

namespace Literal

/-- The literal as a document. -/
def toDocument : Literal → Document
  | str s => .tagged "Str" (.str s)
  | int n => .tagged "Int" (.int n.toInt)
  | ident name => .tagged "Ident" (.str name)
  | placeholder i => .tagged "Placeholder" (.int i.toNat)

/-- The literal that a document is, if it is one. -/
def ofDocument? (d : Document) : Option Literal := do
  match ← d.tagged? with
  | ("Str", s) => str <$> s.toStr?
  | ("Int", n) => int <$> n.toInt64?
  | ("Ident", name) => ident <$> name.toStr?
  | ("Placeholder", i) => placeholder <$> i.toUInt64?
  | _ => none

end Literal

namespace Expr

/-! ### Writing -/

mutual

/-- The tree as a document. -/
def toDocument : Expr → Document
  | ⟨k, s⟩ => .object [("kind", Kind.toDocument k), ("span", s.toDocument)]

/-- The node as a document. -/
def Kind.toDocument : Kind → Document
  | .alt l r => .tagged "Alt" (.array [toDocument l, toDocument r])
  | .seq l r => .tagged "Seq" (.array [toDocument l, toDocument r])
  | .lookahead e => .tagged "And" (toDocument e)
  | .cut e => .tagged "Cut" (toDocument e)
  | .object es => .tagged "Object" (.array (objectDocuments es))
  | .array es => .tagged "Array" (.array (arrayDocuments es))
  | .key k optional =>
    .tagged "Key" (.object [("key", k.toDocument), ("optional", .bool optional)])
  | .index i optional =>
    .tagged "Index" (.object [("index", i.toDocument), ("optional", .bool optional)])
  | .slice a b =>
    .tagged "Slice" (.object [("from", .ofOption (a.map Literal.toDocument)),
      ("to", .ofOption (b.map Literal.toDocument))])
  | .spread => .str "Spread"
  | .descent => .str "Recursive"
  | .self => .str "Id"
  | .literal l => .tagged "Literal" l.toDocument

/-- The entries of an object pattern, each as a document. -/
def objectDocuments : List ObjectEntry → List Document
  | [] => []
  | .field k optional e :: es =>
    .tagged "Field" (.object [("key", k.toDocument), ("optional", .bool optional),
      ("value", toDocument e)]) :: objectDocuments es
  | .rest e :: es => .tagged "Rest" (toDocument e) :: objectDocuments es

/-- The entries of an array pattern, each as a document. -/
def arrayDocuments : List ArrayEntry → List Document
  | [] => []
  | .item e :: es => .tagged "Item" (toDocument e) :: arrayDocuments es
  | .rest e :: es => .tagged "Rest" (toDocument e) :: arrayDocuments es

end

/-! ### Reading -/

mutual

/-- The tree that a document is, if it is one. -/
def ofDocument? : Document → Option Expr
  | .object [("kind", k), ("span", s)] => do
    return ⟨← Kind.ofDocument? k, ← Span.ofDocument? s⟩
  | _ => none

/-- The node that a document is, if it is one. -/
def Kind.ofDocument? : Document → Option Kind
  | .object [("Alt", .array [l, r])] => do return .alt (← ofDocument? l) (← ofDocument? r)
  | .object [("Seq", .array [l, r])] => do return .seq (← ofDocument? l) (← ofDocument? r)
  | .object [("And", e)] => .lookahead <$> ofDocument? e
  | .object [("Cut", e)] => .cut <$> ofDocument? e
  | .object [("Object", .array es)] => .object <$> objectEntries? es
  | .object [("Array", .array es)] => .array <$> arrayEntries? es
  | .object [("Key", .object [("key", k), ("optional", optional)])] => do
    return .key (← Literal.ofDocument? k) (← optional.toBool?)
  | .object [("Index", .object [("index", i), ("optional", optional)])] => do
    return .index (← Literal.ofDocument? i) (← optional.toBool?)
  | .object [("Slice", bounds)] => do
    return .slice (← (← bounds.member? "from").toOption? Literal.ofDocument?)
      (← (← bounds.member? "to").toOption? Literal.ofDocument?)
  | .object [("Literal", l)] => .literal <$> Literal.ofDocument? l
  | .str "Spread" => some .spread
  | .str "Recursive" => some .descent
  | .str "Id" => some .self
  | _ => none

/-- The entries of an object pattern that documents are, if they are. -/
def objectEntries? : List Document → Option (List ObjectEntry)
  | [] => some []
  | .object [("Field", .object [("key", k), ("optional", optional), ("value", e)])] :: ds => do
    let entry := .field (← Literal.ofDocument? k) (← optional.toBool?) (← ofDocument? e)
    return entry :: (← objectEntries? ds)
  | .object [("Rest", e)] :: ds => do return .rest (← ofDocument? e) :: (← objectEntries? ds)
  | _ => none

/-- The entries of an array pattern that documents are, if they are. -/
def arrayEntries? : List Document → Option (List ArrayEntry)
  | [] => some []
  | .object [("Item", e)] :: ds => do return .item (← ofDocument? e) :: (← arrayEntries? ds)
  | .object [("Rest", e)] :: ds => do return .rest (← ofDocument? e) :: (← arrayEntries? ds)
  | _ => none

end

end Expr

end DataExpr
