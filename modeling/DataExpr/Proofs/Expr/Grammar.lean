import DataExpr.Expr
import DataExpr.Token

/-!
# The grammar of expressions

`Grammar.Whole ks e` says that the tokens of the kinds `ks` are an expression and that `e` is its
tree.  The predicates of this module are the productions of the grammar

* `Whole` is `Sequence ("|" Sequence)*`;
* `Sequence` is `Operand (Operand | "!" | "&")*`;
* `Operand` is an expression in parentheses, an object or array pattern, an access, or one of `*`,
  `**`, `_`, a string, an integer and a placeholder;
* `Fields` is `Field ("," Field)*`, and `Elements` is `Element ("," Element)*`.

A repetition grows at its end, so `|` and juxtaposition associate to the left, and `!` and `&` apply
to the whole sequence before them.  Nothing is said about spans: a tree may have any.  The
predicates do not mention the parser and run over lists of kinds, so they say which trees there are
and not how to find them.
-/

namespace DataExpr.Grammar

/-- Whether the token is the key of an access, and which key it is. -/
inductive Key : TokenKind → Literal → Prop where
  | ident (name : String) : Key (.ident name) (.ident name)
  | underscore : Key .underscore (.ident "_")
  | str (s : String) : Key (.str s) (.str s)
  | placeholder (i : UInt64) : Key (.placeholder i) (.placeholder i)

/-- Whether the token is the key of a field, and which key it is. -/
inductive FieldKey : TokenKind → Literal → Prop where
  | key {k : TokenKind} {l : Literal} (h : Key k l) : FieldKey k l
  | int (n : Int64) : FieldKey (.int n) (.int n)

/-- Whether the tokens are a bound of a slice or nothing, and which bound they are. -/
inductive Bound : List TokenKind → Option Literal → Prop where
  | absent : Bound [] none
  | int (n : Int64) : Bound [.int n] (some (.int n))
  | placeholder (i : UInt64) : Bound [.placeholder i] (some (.placeholder i))

/-- A token that may be there or not. -/
def maybe (k : TokenKind) (present : Bool) : List TokenKind := if present then [k] else []

mutual

/-- Whether the tokens are a whole expression, and which tree it has. -/
inductive Whole : List TokenKind → Expr → Prop where
  | sequence {ks : List TokenKind} {e : Expr} (h : Sequence ks e) : Whole ks e
  | alt {ks ks' : List TokenKind} {l r : Expr} (hl : Whole ks l) (hr : Sequence ks' r) (s : Span) :
      Whole (ks ++ .pipe :: ks') ⟨.alt l r, s⟩

/-- Whether the tokens are a sequence of operands and postfix operators, and which tree it has. -/
inductive Sequence : List TokenKind → Expr → Prop where
  | operand {ks : List TokenKind} {e : Expr} (h : Operand ks e) : Sequence ks e
  | seq {ks ks' : List TokenKind} {l r : Expr} (hl : Sequence ks l) (hr : Operand ks' r)
      (s : Span) :
      Sequence (ks ++ ks') ⟨.seq l r, s⟩
  | cut {ks : List TokenKind} {e : Expr} (h : Sequence ks e) (s : Span) :
      Sequence (ks ++ [.bang]) ⟨.cut e, s⟩
  | lookahead {ks : List TokenKind} {e : Expr} (h : Sequence ks e) (s : Span) :
      Sequence (ks ++ [.amp]) ⟨.lookahead e, s⟩

/-- Whether the tokens are a single operand, and which tree it has. -/
inductive Operand : List TokenKind → Expr → Prop where
  /-- The tree in parentheses is the tree itself. -/
  | group {ks : List TokenKind} {e : Expr} (h : Whole ks e) (s : Span) :
      Operand (.leftParen :: (ks ++ [.rightParen])) ⟨e.kind, s⟩
  | emptyObject (s : Span) : Operand [.leftBrace, .rightBrace] ⟨.object [], s⟩
  | object {ks : List TokenKind} {es : List Expr.ObjectEntry} (h : Fields ks es) (comma : Bool)
      (s : Span) :
      Operand (.leftBrace :: (ks ++ (maybe .comma comma ++ [.rightBrace]))) ⟨.object es, s⟩
  | emptyArray (s : Span) : Operand [.leftBracket, .rightBracket] ⟨.array [], s⟩
  | array {ks : List TokenKind} {es : List Expr.ArrayEntry} (h : Elements ks es) (comma : Bool)
      (s : Span) :
      Operand (.leftBracket :: (ks ++ (maybe .comma comma ++ [.rightBracket]))) ⟨.array es, s⟩
  | key {k : TokenKind} {l : Literal} (h : Key k l) (optional : Bool) (s : Span) :
      Operand (.dots 1 :: k :: maybe .question optional) ⟨.key l optional, s⟩
  | index (n : Int64) (optional : Bool) (s : Span) :
      Operand (.dots 1 :: .int n :: maybe .question optional) ⟨.index (.int n) optional, s⟩
  | slice {ks ks' : List TokenKind} {start stop : Option Literal} (hstart : Bound ks start)
      (hstop : Bound ks' stop) (s : Span) :
      Operand (.dots 1 :: .leftBracket :: (ks ++ .colon :: (ks' ++ [.rightBracket])))
        ⟨.slice start stop, s⟩
  | spread (s : Span) : Operand [.stars 1] ⟨.spread, s⟩
  | descent (s : Span) : Operand [.stars 2] ⟨.descent, s⟩
  | self (s : Span) : Operand [.underscore] ⟨.self, s⟩
  | str (text : String) (s : Span) : Operand [.str text] ⟨.literal (.str text), s⟩
  | int (n : Int64) (s : Span) : Operand [.int n] ⟨.literal (.int n), s⟩
  | placeholder (i : UInt64) (s : Span) : Operand [.placeholder i] ⟨.literal (.placeholder i), s⟩

/-- Whether the tokens are an entry of an object pattern, and which one. -/
inductive Field : List TokenKind → Expr.ObjectEntry → Prop where
  | field {k : TokenKind} {l : Literal} (hk : FieldKey k l) (optional : Bool) {ks : List TokenKind}
      {e : Expr} (h : Whole ks e) :
      Field (k :: (maybe .question optional ++ .colon :: ks)) (.field l optional e)
  | rest {ks : List TokenKind} {e : Expr} (h : Whole ks e) : Field (.dots 3 :: ks) (.rest e)

/-- Whether the tokens are entries of an object pattern with commas between them, and which ones. -/
inductive Fields : List TokenKind → List Expr.ObjectEntry → Prop where
  | one {ks : List TokenKind} {x : Expr.ObjectEntry} (h : Field ks x) : Fields ks [x]
  | more {ks ks' : List TokenKind} {es : List Expr.ObjectEntry} {x : Expr.ObjectEntry}
      (hes : Fields ks es) (h : Field ks' x) : Fields (ks ++ .comma :: ks') (es ++ [x])

/-- Whether the tokens are an entry of an array pattern, and which one. -/
inductive Element : List TokenKind → Expr.ArrayEntry → Prop where
  | item {ks : List TokenKind} {e : Expr} (h : Whole ks e) : Element ks (.item e)
  | rest {ks : List TokenKind} {e : Expr} (h : Whole ks e) : Element (.dots 3 :: ks) (.rest e)

/-- Whether the tokens are entries of an array pattern with commas between them, and which ones. -/
inductive Elements : List TokenKind → List Expr.ArrayEntry → Prop where
  | one {ks : List TokenKind} {x : Expr.ArrayEntry} (h : Element ks x) : Elements ks [x]
  | more {ks ks' : List TokenKind} {es : List Expr.ArrayEntry} {x : Expr.ArrayEntry}
      (hes : Elements ks es) (h : Element ks' x) : Elements (ks ++ .comma :: ks') (es ++ [x])

end

end DataExpr.Grammar
