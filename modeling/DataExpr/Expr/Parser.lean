import DataExpr.Expr
import DataExpr.Expr.ParseError
import DataExpr.Token.Lexer

/-!
# Reading expressions

The grammar, in terms of tokens, is

* an expression is one or more sequences with `|` between them;
* a sequence is an operand followed by any number of operands, `!` and `&`; the postfix operators
  apply to everything sequenced so far;
* an operand is an expression in parentheses, an object or array pattern, an access (`.` with a key,
  an index or a slice), `*`, `**`, `_`, a string, an integer or a placeholder.

`Expr.parse` reads tokens one at a time from left to right.  A `Parser.State` is all that has been
read: the constructs that are still open (`Parser.Frame`), what stands to the left of the operand
that is being read (`Parser.Left`), and what may come next.  `Parser.step` takes one token into
account.  Every state can be completed to a whole expression, so the first token that `step` refuses
is the first one that no expression could have in its place, and the innermost open construct of the
state is the one that the error belongs to.
-/

namespace DataExpr

namespace Parser

/-! ### States -/

/-- What stands to the left of an operand at the same level of nesting. -/
structure Left where
  /-- The alternatives before the current sequence, joined. -/
  alternatives : Option Expr
  /-- The current sequence up to the operand. -/
  sequence : Option Expr

/-- A construct whose end has not been read, with an expression inside it that has begun. -/
inductive Frame where
  /-- Parentheses. -/
  | group (opening : Span)
  /-- An object pattern at the value of a field. -/
  | field (opening : Span) (done : List Expr.ObjectEntry) (key : Literal) (optional : Bool)
  /-- An object pattern at its rest entry. -/
  | objectRest (opening : Span) (done : List Expr.ObjectEntry)
  /-- An array pattern at an item. -/
  | item (opening : Span) (done : List Expr.ArrayEntry)
  /-- An array pattern at its rest entry. -/
  | arrayRest (opening : Span) (done : List Expr.ArrayEntry)

/-- The open constructs, the innermost first, each with what stands to its left. -/
abbrev Stack := List (Frame × Left)

/-- All that has been read of an expression.  Entries that are done are kept latest first. -/
inductive State where
  /-- An operand must come. -/
  | operand (left : Left) (stack : Stack)
  /-- A sequence may go on or end here. -/
  | operator (alternatives : Option Expr) (sequence : Expr) (stack : Stack)
  /-- A key, an index or a slice must come after the dot. -/
  | access (dot : Span) (left : Left) (stack : Stack)
  /-- A question mark may come after a key or index. -/
  | accessed (dot key : Span) (access : Bool → Expr.Kind) (left : Left) (stack : Stack)
  /-- The first bound of a slice or its colon must come. -/
  | sliceStart (dot : Span) (left : Left) (stack : Stack)
  /-- The colon of a slice must come. -/
  | sliceColon (dot : Span) (start : Literal) (left : Left) (stack : Stack)
  /-- The second bound of a slice or its end must come. -/
  | sliceStop (dot : Span) (start : Option Literal) (left : Left) (stack : Stack)
  /-- The end of a slice must come. -/
  | sliceEnd (dot : Span) (start : Option Literal) (stop : Literal) (left : Left) (stack : Stack)
  /-- An entry of an object pattern or its end must come. -/
  | entry (opening : Span) (done : List Expr.ObjectEntry) (left : Left) (stack : Stack)
  /-- A question mark or a colon must come after the key of a field. -/
  | fieldMark (opening : Span) (done : List Expr.ObjectEntry) (key : Literal) (left : Left)
    (stack : Stack)
  /-- The colon of an optional field must come. -/
  | fieldColon (opening : Span) (done : List Expr.ObjectEntry) (key : Literal) (left : Left)
    (stack : Stack)
  /-- An entry of an array pattern or its end must come. -/
  | element (opening : Span) (done : List Expr.ArrayEntry) (left : Left) (stack : Stack)
  /-- The whole expression has been read. -/
  | accepted (e : Expr)

/-- The level of nesting where nothing has been read yet. -/
def Left.empty : Left := ⟨none, none⟩

/-- The alternatives up to and including the sequence. -/
def joinAlternatives (alternatives : Option Expr) (sequence : Expr) : Expr :=
  match alternatives with
  | none => sequence
  | some left => ⟨.alt left sequence, left.span.merge sequence.span⟩

/-- The sequence to the left with the operand at its end. -/
def Left.extend (left : Left) (e : Expr) : Expr :=
  match left.sequence with
  | none => e
  | some sequence => ⟨.seq sequence e, sequence.span.merge e.span⟩

/-- The state after an operand. -/
def Left.push (left : Left) (e : Expr) (stack : Stack) : State :=
  .operator left.alternatives (left.extend e) stack

/-- The construct that an error inside the frame belongs to. -/
def Frame.context : Frame → ParseError.Context
  | group _ => .group
  | field .. | objectRest .. => .objectPattern
  | item .. | arrayRest .. => .arrayPattern

/-- The construct that an error belongs to, which is the innermost open one. -/
def contextOf (stack : Stack) : Option ParseError.Context :=
  stack.head?.map (·.1.context)

/-! ### Steps -/

/-- The error that something else was expected in the place of the token. -/
def reject {α : Type} (t : Token) (expected : String) (context : Option ParseError.Context) :
    Except ParseError α :=
  .error { t.unexpected expected with context }

/-- An operand must begin with the token. -/
def startOperand (left : Left) (stack : Stack) (t : Token) : Except ParseError State :=
  let atom kind : Except ParseError State := .ok (left.push ⟨kind, t.span⟩ stack)
  let refuse kind : Except ParseError State := .error ⟨kind, t.span, contextOf stack⟩
  match t.kind with
  | .leftParen => .ok (.operand .empty ((.group t.span, left) :: stack))
  | .leftBrace => .ok (.entry t.span [] left stack)
  | .leftBracket => .ok (.element t.span [] left stack)
  | .dots 1 => .ok (.access t.span left stack)
  | .dots count => refuse (.unexpectedDots count)
  | .stars 1 => atom .spread
  | .stars 2 => atom .descent
  | .stars count => refuse (.tooManyStars count)
  | .underscore => atom .self
  | .str s => atom (.literal (.str s))
  | .int n => atom (.literal (.int n))
  | .placeholder i => atom (.literal (.placeholder i))
  | .ident name => refuse (.bareIdentifier name)
  | _ => reject t "expression" (contextOf stack)

/-- The token must end the expression `e` inside the innermost open construct. -/
def endLevel (e : Expr) (stack : Stack) (t : Token) : Except ParseError State :=
  let close kind opening (left : Left) (outer : Stack) : Except ParseError State :=
    .ok (left.push ⟨kind, Span.merge opening t.span⟩ outer)
  match stack with
  | [] =>
    match t.kind with
    | .eof => .ok (.accepted e)
    | .error => .error ⟨.invalidToken, t.span, none⟩
    | found => .error ⟨.trailingInput found, t.span, none⟩
  | (.group opening, left) :: outer =>
    match t.kind with
    | .rightParen => close e.kind opening left outer
    | _ => reject t TokenKind.rightParen.name (some .group)
  | (.field opening done key optional, left) :: outer =>
    let done := .field key optional e :: done
    match t.kind with
    | .comma => .ok (.entry opening done left outer)
    | .rightBrace => close (.object done.reverse) opening left outer
    | _ => reject t TokenKind.rightBrace.name (some .objectPattern)
  | (.objectRest opening done, left) :: outer =>
    let done := .rest e :: done
    match t.kind with
    | .comma => .ok (.entry opening done left outer)
    | .rightBrace => close (.object done.reverse) opening left outer
    | _ => reject t TokenKind.rightBrace.name (some .objectPattern)
  | (.item opening done, left) :: outer =>
    let done := .item e :: done
    match t.kind with
    | .comma => .ok (.element opening done left outer)
    | .rightBracket => close (.array done.reverse) opening left outer
    | _ => reject t TokenKind.rightBracket.name (some .arrayPattern)
  | (.arrayRest opening done, left) :: outer =>
    let done := .rest e :: done
    match t.kind with
    | .comma => .ok (.element opening done left outer)
    | .rightBracket => close (.array done.reverse) opening left outer
    | _ => reject t TokenKind.rightBracket.name (some .arrayPattern)

/-- The token comes after a complete operand.  Runs of dots and stars of any length begin an operand,
so that a run of the wrong length is reported as such. -/
def afterOperand (alternatives : Option Expr) (sequence : Expr) (stack : Stack) (t : Token) :
    Except ParseError State :=
  match t.kind with
  | .bang => .ok (.operator alternatives ⟨.cut sequence, sequence.span.merge t.span⟩ stack)
  | .amp => .ok (.operator alternatives ⟨.lookahead sequence, sequence.span.merge t.span⟩ stack)
  | .pipe => .ok (.operand ⟨some (joinAlternatives alternatives sequence), none⟩ stack)
  | .dots _ | .stars _ => startOperand ⟨alternatives, some sequence⟩ stack t
  | kind =>
    if kind.startsOperand then startOperand ⟨alternatives, some sequence⟩ stack t
    else endLevel (joinAlternatives alternatives sequence) stack t

/-- The token comes after the dot of an access. -/
def afterDot (dot : Span) (left : Left) (stack : Stack) (t : Token) : Except ParseError State :=
  let access node : Except ParseError State := .ok (.accessed dot t.span node left stack)
  match t.kind with
  | .leftBracket => .ok (.sliceStart dot left stack)
  | .ident name => access (.key (.ident name))
  | .underscore => access (.key (.ident "_"))
  | .str s => access (.key (.str s))
  | .placeholder i => access (.key (.placeholder i))
  | .int n => access (.index (.int n))
  | _ => reject t "key, index or slice" (some .key)

/-- The bound of a slice that the token is, if it is one. -/
def bound? : TokenKind → Option Literal
  | .int n => some (.int n)
  | .placeholder i => some (.placeholder i)
  | _ => none

/-- The key of a field that the token is, if it is one. -/
def fieldKey? : TokenKind → Option Literal
  | .ident name => some (.ident name)
  | .underscore => some (.ident "_")
  | .str s => some (.str s)
  | .int n => some (.int n)
  | .placeholder i => some (.placeholder i)
  | _ => none

/-- Take one token into account. -/
def step (state : State) (t : Token) : Except ParseError State :=
  match state with
  | .operand left stack => startOperand left stack t
  | .operator alternatives sequence stack => afterOperand alternatives sequence stack t
  | .access dot left stack => afterDot dot left stack t
  | .accessed dot key access left stack =>
    match t.kind with
    | .question => .ok (left.push ⟨access true, dot.merge t.span⟩ stack)
    | _ =>
      afterOperand left.alternatives (left.extend ⟨access false, dot.merge key⟩) stack t
  | .sliceStart dot left stack =>
    match bound? t.kind, t.kind with
    | some start, _ => .ok (.sliceColon dot start left stack)
    | none, .colon => .ok (.sliceStop dot none left stack)
    | none, .rightBracket => reject t TokenKind.colon.name (some .slice)
    | none, _ => reject t "integer or placeholder" (some .slice)
  | .sliceColon dot start left stack =>
    match t.kind with
    | .colon => .ok (.sliceStop dot (some start) left stack)
    | _ => reject t TokenKind.colon.name (some .slice)
  | .sliceStop dot start left stack =>
    match bound? t.kind, t.kind with
    | some stop, _ => .ok (.sliceEnd dot start stop left stack)
    | none, .rightBracket => .ok (left.push ⟨.slice start none, dot.merge t.span⟩ stack)
    | none, .colon => reject t TokenKind.rightBracket.name (some .slice)
    | none, _ => reject t "integer or placeholder" (some .slice)
  | .sliceEnd dot start stop left stack =>
    match t.kind with
    | .rightBracket => .ok (left.push ⟨.slice start (some stop), dot.merge t.span⟩ stack)
    | _ => reject t TokenKind.rightBracket.name (some .slice)
  | .entry opening done left stack =>
    match fieldKey? t.kind, t.kind with
    | some key, _ => .ok (.fieldMark opening done key left stack)
    | none, .rightBrace =>
      .ok (left.push ⟨.object done.reverse, opening.merge t.span⟩ stack)
    | none, .dots 3 => .ok (.operand .empty ((.objectRest opening done, left) :: stack))
    | none, _ => reject t "object key or `...`" (some .objectPattern)
  | .fieldMark opening done key left stack =>
    match t.kind with
    | .question => .ok (.fieldColon opening done key left stack)
    | .colon => .ok (.operand .empty ((.field opening done key false, left) :: stack))
    | _ => reject t TokenKind.colon.name (some .objectPattern)
  | .fieldColon opening done key left stack =>
    match t.kind with
    | .colon => .ok (.operand .empty ((.field opening done key true, left) :: stack))
    | _ => reject t TokenKind.colon.name (some .objectPattern)
  | .element opening done left stack =>
    match t.kind with
    | .rightBracket => .ok (left.push ⟨.array done.reverse, opening.merge t.span⟩ stack)
    | .dots 3 => .ok (.operand .empty ((.arrayRest opening done, left) :: stack))
    | _ => startOperand .empty ((.item opening done, left) :: stack) t
  | .accepted e => .ok (.accepted e)

/-- The expression that the tokens make up from the given state on.  Tokens that end before an `eof`
make up none. -/
def run : State → List Token → Except ParseError Expr
  | .accepted e, _ => .ok e
  | _, [] => .error ⟨.emptyExpression, .dummy, none⟩
  | state, t :: ts =>
    match step state t with
    | .ok next => run next ts
    | .error err => .error err

end Parser

namespace Expr

/-- The expression that the tokens up to `eof` make up. -/
def parse (tokens : List Token) : Except ParseError Expr :=
  match tokens with
  | [] => .error ⟨.emptyExpression, .dummy, none⟩
  | t :: _ =>
    if t.kind = .eof then .error ⟨.emptyExpression, t.span, none⟩
    else Parser.run (.operand .empty []) tokens

/-- The expression that the text makes up. -/
def read (source : String) : Except ParseError Expr := parse (Token.scan source)

end Expr

end DataExpr
