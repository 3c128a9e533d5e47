import DataExpr.Expr.Parser
import DataExpr.Proofs.Expr.Grammar

/-!
# Steps of the parser

`Parser.Step state t next` lists what one token can do to a state, with one case for each way in which
a state can go on.  It is what `Parser.step` does if it takes the token (`Parser.step_iff`).  If it
refuses the token, the error is about that token and belongs to the construct that the state is in
(`Parser.blames_of_step`).

Both follow from one account of each function that a step calls, such as
`Parser.startOperand_outcome`.  What the parser keeps from state to state is proved over the cases of
`Step`, and the functions themselves are not opened for it.
-/

namespace DataExpr

namespace Parser

open Grammar (Key FieldKey Bound)

/-! ### Tokens that are taken -/

/-- Whether the token is an operand by itself, and which node it is. -/
inductive Atom : TokenKind → Expr.Kind → Prop where
  | spread : Atom (.stars 1) .spread
  | descent : Atom (.stars 2) .descent
  | self : Atom .underscore .self
  | str (s : String) : Atom (.str s) (.literal (.str s))
  | int (n : Int64) : Atom (.int n) (.literal (.int n))
  | placeholder (i : UInt64) : Atom (.placeholder i) (.literal (.placeholder i))

/-- What a token does that begins an operand. -/
inductive Starts (left : Left) (stack : Stack) : Token → State → Prop where
  | group (span : Span) :
      Starts left stack ⟨.leftParen, span⟩ (.operand .empty ((.group span, left) :: stack))
  | object (span : Span) : Starts left stack ⟨.leftBrace, span⟩ (.entry span [] left stack)
  | array (span : Span) : Starts left stack ⟨.leftBracket, span⟩ (.element span [] left stack)
  | access (span : Span) : Starts left stack ⟨.dots 1, span⟩ (.access span left stack)
  | atom {k : TokenKind} {kind : Expr.Kind} (h : Atom k kind) (span : Span) :
      Starts left stack ⟨k, span⟩ (left.push ⟨kind, span⟩ stack)

/-- Whether an entry of an object pattern is done with the expression `e` inside the construct: with
the opening brace and the entries up to this one. -/
inductive Frame.EndsField (e : Expr) : Frame → Span → List Expr.ObjectEntry → Prop where
  | field (opening : Span) (done : List Expr.ObjectEntry) (key : Literal) (optional : Bool) :
      EndsField e (.field opening done key optional) opening (.field key optional e :: done)
  | rest (opening : Span) (done : List Expr.ObjectEntry) :
      EndsField e (.objectRest opening done) opening (.rest e :: done)

/-- Whether an entry of an array pattern is done with the expression `e` inside the construct: with
the opening bracket and the entries up to this one. -/
inductive Frame.EndsElement (e : Expr) : Frame → Span → List Expr.ArrayEntry → Prop where
  | item (opening : Span) (done : List Expr.ArrayEntry) :
      EndsElement e (.item opening done) opening (.item e :: done)
  | rest (opening : Span) (done : List Expr.ArrayEntry) :
      EndsElement e (.arrayRest opening done) opening (.rest e :: done)

/-- What a token does that ends the expression `e` inside the innermost open construct. -/
inductive Ends (e : Expr) : Stack → Token → State → Prop where
  | whole (span : Span) : Ends e [] ⟨.eof, span⟩ (.accepted e)
  | group (opening span : Span) (left : Left) (outer : Stack) :
      Ends e ((.group opening, left) :: outer) ⟨.rightParen, span⟩
        (left.push ⟨e.kind, opening.merge span⟩ outer)
  | entry {frame : Frame} {opening : Span} {done : List Expr.ObjectEntry}
      (h : frame.EndsField e opening done) (span : Span) (left : Left) (outer : Stack) :
      Ends e ((frame, left) :: outer) ⟨.comma, span⟩ (.entry opening done left outer)
  | object {frame : Frame} {opening : Span} {done : List Expr.ObjectEntry}
      (h : frame.EndsField e opening done) (span : Span) (left : Left) (outer : Stack) :
      Ends e ((frame, left) :: outer) ⟨.rightBrace, span⟩
        (left.push ⟨.object done.reverse, opening.merge span⟩ outer)
  | element {frame : Frame} {opening : Span} {done : List Expr.ArrayEntry}
      (h : frame.EndsElement e opening done) (span : Span) (left : Left) (outer : Stack) :
      Ends e ((frame, left) :: outer) ⟨.comma, span⟩ (.element opening done left outer)
  | array {frame : Frame} {opening : Span} {done : List Expr.ArrayEntry}
      (h : frame.EndsElement e opening done) (span : Span) (left : Left) (outer : Stack) :
      Ends e ((frame, left) :: outer) ⟨.rightBracket, span⟩
        (left.push ⟨.array done.reverse, opening.merge span⟩ outer)

/-- What a token does after a complete operand. -/
inductive Continues (alternatives : Option Expr) (sequence : Expr) (stack : Stack) :
    Token → State → Prop where
  | cut (span : Span) :
      Continues alternatives sequence stack ⟨.bang, span⟩
        (.operator alternatives ⟨.cut sequence, sequence.span.merge span⟩ stack)
  | lookahead (span : Span) :
      Continues alternatives sequence stack ⟨.amp, span⟩
        (.operator alternatives ⟨.lookahead sequence, sequence.span.merge span⟩ stack)
  | alternative (span : Span) :
      Continues alternatives sequence stack ⟨.pipe, span⟩
        (.operand ⟨some (joinAlternatives alternatives sequence), none⟩ stack)
  | operand {t : Token} {next : State} (h : Starts ⟨alternatives, some sequence⟩ stack t next) :
      Continues alternatives sequence stack t next
  | close {t : Token} {next : State}
      (h : Ends (joinAlternatives alternatives sequence) stack t next) :
      Continues alternatives sequence stack t next

/-- What a token does to a state. -/
inductive Step : State → Token → State → Prop where
  | operand {left : Left} {stack : Stack} {t : Token} {next : State} (h : Starts left stack t next) :
      Step (.operand left stack) t next
  | operator {alternatives : Option Expr} {sequence : Expr} {stack : Stack} {t : Token}
      {next : State} (h : Continues alternatives sequence stack t next) :
      Step (.operator alternatives sequence stack) t next
  | slice (dot span : Span) (left : Left) (stack : Stack) :
      Step (.access dot left stack) ⟨.leftBracket, span⟩ (.sliceStart dot left stack)
  | key {k : TokenKind} {l : Literal} (h : Key k l) (dot span : Span) (left : Left) (stack : Stack) :
      Step (.access dot left stack) ⟨k, span⟩ (.accessed dot span (.key l) left stack)
  | index (n : Int64) (dot span : Span) (left : Left) (stack : Stack) :
      Step (.access dot left stack) ⟨.int n, span⟩
        (.accessed dot span (.index (.int n)) left stack)
  | optional (dot key span : Span) (access : Bool → Expr.Kind) (left : Left) (stack : Stack) :
      Step (.accessed dot key access left stack) ⟨.question, span⟩
        (left.push ⟨access true, dot.merge span⟩ stack)
  /-- Any other token comes after the access as after every operand. -/
  | plain {dot key : Span} {access : Bool → Expr.Kind} {left : Left} {stack : Stack} {t : Token}
      {next : State}
      (h : Continues left.alternatives (left.extend ⟨access false, dot.merge key⟩) stack t next) :
      Step (.accessed dot key access left stack) t next
  | start {k : TokenKind} {start : Literal} (h : Bound [k] (some start)) (dot span : Span)
      (left : Left) (stack : Stack) :
      Step (.sliceStart dot left stack) ⟨k, span⟩ (.sliceColon dot start left stack)
  | noStart (dot span : Span) (left : Left) (stack : Stack) :
      Step (.sliceStart dot left stack) ⟨.colon, span⟩ (.sliceStop dot none left stack)
  | sliceColon (dot span : Span) (start : Literal) (left : Left) (stack : Stack) :
      Step (.sliceColon dot start left stack) ⟨.colon, span⟩
        (.sliceStop dot (some start) left stack)
  | stop {k : TokenKind} {stop : Literal} (h : Bound [k] (some stop)) (dot span : Span)
      (start : Option Literal) (left : Left) (stack : Stack) :
      Step (.sliceStop dot start left stack) ⟨k, span⟩ (.sliceEnd dot start stop left stack)
  | noStop (dot span : Span) (start : Option Literal) (left : Left) (stack : Stack) :
      Step (.sliceStop dot start left stack) ⟨.rightBracket, span⟩
        (left.push ⟨.slice start none, dot.merge span⟩ stack)
  | sliceEnd (dot span : Span) (start : Option Literal) (stop : Literal) (left : Left)
      (stack : Stack) :
      Step (.sliceEnd dot start stop left stack) ⟨.rightBracket, span⟩
        (left.push ⟨.slice start (some stop), dot.merge span⟩ stack)
  | fieldKey {k : TokenKind} {key : Literal} (h : FieldKey k key) (opening span : Span)
      (done : List Expr.ObjectEntry) (left : Left) (stack : Stack) :
      Step (.entry opening done left stack) ⟨k, span⟩ (.fieldMark opening done key left stack)
  | objectEnd (opening span : Span) (done : List Expr.ObjectEntry) (left : Left) (stack : Stack) :
      Step (.entry opening done left stack) ⟨.rightBrace, span⟩
        (left.push ⟨.object done.reverse, opening.merge span⟩ stack)
  | objectRest (opening span : Span) (done : List Expr.ObjectEntry) (left : Left) (stack : Stack) :
      Step (.entry opening done left stack) ⟨.dots 3, span⟩
        (.operand .empty ((.objectRest opening done, left) :: stack))
  | fieldMark (opening span : Span) (done : List Expr.ObjectEntry) (key : Literal) (left : Left)
      (stack : Stack) :
      Step (.fieldMark opening done key left stack) ⟨.question, span⟩
        (.fieldColon opening done key left stack)
  | field (opening span : Span) (done : List Expr.ObjectEntry) (key : Literal) (left : Left)
      (stack : Stack) :
      Step (.fieldMark opening done key left stack) ⟨.colon, span⟩
        (.operand .empty ((.field opening done key false, left) :: stack))
  | optionalField (opening span : Span) (done : List Expr.ObjectEntry) (key : Literal) (left : Left)
      (stack : Stack) :
      Step (.fieldColon opening done key left stack) ⟨.colon, span⟩
        (.operand .empty ((.field opening done key true, left) :: stack))
  | arrayEnd (opening span : Span) (done : List Expr.ArrayEntry) (left : Left) (stack : Stack) :
      Step (.element opening done left stack) ⟨.rightBracket, span⟩
        (left.push ⟨.array done.reverse, opening.merge span⟩ stack)
  | arrayRest (opening span : Span) (done : List Expr.ArrayEntry) (left : Left) (stack : Stack) :
      Step (.element opening done left stack) ⟨.dots 3, span⟩
        (.operand .empty ((.arrayRest opening done, left) :: stack))
  /-- An item has no mark of its own. -/
  | item {opening : Span} {done : List Expr.ArrayEntry} {left : Left} {stack : Stack} {t : Token}
      {next : State} (h : Starts .empty ((.item opening done, left) :: stack) t next) :
      Step (.element opening done left stack) t next
  /-- Nothing changes any more once the expression is complete. -/
  | accepted (e : Expr) (t : Token) : Step (.accepted e) t (.accepted e)

/-! ### The functions on tokens that they take -/

variable {state next : State} {t : Token}

theorem Starts.eq {left : Left} {stack : Stack} (h : Starts left stack t next) :
    startOperand left stack t = .ok next := by
  cases h with
  | atom h span => cases h <;> rfl
  | _ => rfl

theorem Ends.eq {e : Expr} {stack : Stack} (h : Ends e stack t next) :
    endLevel e stack t = .ok next := by
  cases h with
  | whole span => rfl
  | group opening span left outer => rfl
  | entry h span left outer => cases h <;> rfl
  | object h span left outer => cases h <;> rfl
  | element h span left outer => cases h <;> rfl
  | array h span left outer => cases h <;> rfl

theorem Continues.eq {alternatives : Option Expr} {sequence : Expr} {stack : Stack}
    (h : Continues alternatives sequence stack t next) :
    afterOperand alternatives sequence stack t = .ok next := by
  cases h with
  | operand h =>
    rw [← h.eq]
    cases h with
    | atom h span => cases h <;> rfl
    | _ => rfl
  | close h =>
    rw [← h.eq]
    cases h <;> rfl
  | _ => rfl

theorem Continues.ne_question {alternatives : Option Expr} {sequence : Expr} {stack : Stack}
    (h : Continues alternatives sequence stack t next) : t.kind ≠ .question := by
  cases h with
  | operand h =>
    cases h with
    | atom h span => cases h <;> nofun
    | _ => nofun
  | close h => cases h <;> nofun
  | _ => nofun

/-! ### Tokens that are refused -/

/-- Whether the error is about the token and belongs to the construct. -/
def Blames (err : ParseError) (t : Token) (context : Option ParseError.Context) : Prop :=
  err.span = t.span ∧ err.context = context

/-- The construct that an error in the state belongs to. -/
def State.context : State → Option ParseError.Context
  | .operand _ stack | .operator _ _ stack | .accessed _ _ _ _ stack => contextOf stack
  | .access .. => some .key
  | .sliceStart .. | .sliceColon .. | .sliceStop .. | .sliceEnd .. => some .slice
  | .entry .. | .fieldMark .. | .fieldColon .. => some .objectPattern
  | .element .. => some .arrayPattern
  | .accepted _ => none

/-- What comes of a token: a state that is allowed, or an error that is about the token and belongs to
the construct. -/
inductive Outcome (allowed : State → Prop) (t : Token) (context : Option ParseError.Context) :
    Except ParseError State → Prop where
  | taken {next : State} (h : allowed next) : Outcome allowed t context (.ok next)
  | refused {err : ParseError} (h : Blames err t context) : Outcome allowed t context (.error err)

variable {allowed allowed' : State → Prop} {context : Option ParseError.Context}
variable {result : Except ParseError State} {err : ParseError}

theorem Outcome.imp (h : Outcome allowed t context result)
    (himp : ∀ next, allowed next → allowed' next) : Outcome allowed' t context result := by
  cases h with
  | taken h => exact .taken (himp _ h)
  | refused h => exact .refused h

theorem outcome_reject (expected : String) :
    Outcome allowed t context (reject t expected context) := by
  refine .refused ⟨?_, rfl⟩
  show (t.unexpected expected).span = t.span
  unfold Token.unexpected
  split <;> rfl

theorem outcome_ends {e : Expr} {stack : Stack} (h : Ends e stack t next) :
    Outcome (Ends e stack t) t context (endLevel e stack t) := by
  rw [h.eq]
  exact .taken h

/-! ### What comes of every token -/

theorem startOperand_outcome (left : Left) (stack : Stack) (t : Token) :
    Outcome (Starts left stack t) t (contextOf stack) (startOperand left stack t) := by
  obtain ⟨kind, span⟩ := t
  simp only [startOperand]
  split
  · exact .taken (.group span)
  · exact .taken (.object span)
  · exact .taken (.array span)
  · exact .taken (.access span)
  · exact .refused ⟨rfl, rfl⟩
  · exact .taken (.atom .spread span)
  · exact .taken (.atom .descent span)
  · exact .refused ⟨rfl, rfl⟩
  · exact .taken (.atom .self span)
  · exact .taken (.atom (.str _) span)
  · exact .taken (.atom (.int _) span)
  · exact .taken (.atom (.placeholder _) span)
  · exact .refused ⟨rfl, rfl⟩
  · exact outcome_reject _

/-- An entry of an object pattern is done: a comma asks for the next one and the brace ends the
pattern. -/
theorem endField_outcome {e : Expr} {frame : Frame} {opening : Span}
    {done : List Expr.ObjectEntry} (h : frame.EndsField e opening done) (left : Left)
    (outer : Stack) (t : Token) :
    Outcome (Ends e ((frame, left) :: outer) t) t (some .objectPattern)
      (endLevel e ((frame, left) :: outer) t) := by
  obtain ⟨kind, span⟩ := t
  cases kind with
  | comma => exact outcome_ends (.entry h span left outer)
  | rightBrace => exact outcome_ends (.object h span left outer)
  | _ => cases h <;> exact outcome_reject _

/-- An entry of an array pattern is done: a comma asks for the next one and the bracket ends the
pattern. -/
theorem endElement_outcome {e : Expr} {frame : Frame} {opening : Span}
    {done : List Expr.ArrayEntry} (h : frame.EndsElement e opening done) (left : Left)
    (outer : Stack) (t : Token) :
    Outcome (Ends e ((frame, left) :: outer) t) t (some .arrayPattern)
      (endLevel e ((frame, left) :: outer) t) := by
  obtain ⟨kind, span⟩ := t
  cases kind with
  | comma => exact outcome_ends (.element h span left outer)
  | rightBracket => exact outcome_ends (.array h span left outer)
  | _ => cases h <;> exact outcome_reject _

theorem endLevel_outcome (e : Expr) (stack : Stack) (t : Token) :
    Outcome (Ends e stack t) t (contextOf stack) (endLevel e stack t) := by
  match stack with
  | [] =>
    obtain ⟨kind, span⟩ := t
    simp only [endLevel]
    split
    · exact .taken (.whole span)
    · exact .refused ⟨rfl, rfl⟩
    · exact .refused ⟨rfl, rfl⟩
  | (.group opening, left) :: outer =>
    obtain ⟨kind, span⟩ := t
    simp only [endLevel]
    split
    · exact .taken (.group opening span left outer)
    · exact outcome_reject _
  | (.field opening done key optional, left) :: outer =>
    exact endField_outcome (.field opening done key optional) left outer t
  | (.objectRest opening done, left) :: outer =>
    exact endField_outcome (.rest opening done) left outer t
  | (.item opening done, left) :: outer => exact endElement_outcome (.item opening done) left outer t
  | (.arrayRest opening done, left) :: outer =>
    exact endElement_outcome (.rest opening done) left outer t

theorem afterOperand_outcome (alternatives : Option Expr) (sequence : Expr) (stack : Stack)
    (t : Token) :
    Outcome (Continues alternatives sequence stack t) t (contextOf stack)
      (afterOperand alternatives sequence stack t) := by
  have hoperand := (startOperand_outcome ⟨alternatives, some sequence⟩ stack t).imp
    fun _ => Continues.operand
  have hclose := (endLevel_outcome (joinAlternatives alternatives sequence) stack t).imp
    fun _ => Continues.close
  obtain ⟨kind, span⟩ := t
  simp only [afterOperand]
  split
  · exact .taken (.cut span)
  · exact .taken (.lookahead span)
  · exact .taken (.alternative span)
  · exact hoperand
  · exact hoperand
  · split
    · exact hoperand
    · exact hclose

theorem afterDot_outcome (dot : Span) (left : Left) (stack : Stack) (t : Token) :
    Outcome (Step (.access dot left stack) t) t (some .key) (afterDot dot left stack t) := by
  obtain ⟨kind, span⟩ := t
  simp only [afterDot]
  split
  · exact .taken (.slice dot span left stack)
  · exact .taken (.key (.ident _) dot span left stack)
  · exact .taken (.key .underscore dot span left stack)
  · exact .taken (.key (.str _) dot span left stack)
  · exact .taken (.key (.placeholder _) dot span left stack)
  · exact .taken (.index _ dot span left stack)
  · exact outcome_reject _

theorem bound_of_bound? {k : TokenKind} {l : Literal} (h : bound? k = some l) :
    Bound [k] (some l) := by
  unfold bound? at h
  split at h <;> cases h
  · exact .int _
  · exact .placeholder _

theorem fieldKey_of_fieldKey? {k : TokenKind} {l : Literal} (h : fieldKey? k = some l) :
    FieldKey k l := by
  unfold fieldKey? at h
  split at h <;> cases h
  · exact .key (.ident _)
  · exact .key .underscore
  · exact .key (.str _)
  · exact .int _
  · exact .key (.placeholder _)

/-- What comes of a token in a state. -/
theorem step_outcome (state : State) (t : Token) :
    Outcome (Step state t) t state.context (step state t) := by
  obtain ⟨kind, span⟩ := t
  cases state with
  | operand left stack => exact (startOperand_outcome left stack _).imp fun _ => .operand
  | operator alternatives sequence stack =>
    exact (afterOperand_outcome alternatives sequence stack _).imp fun _ => .operator
  | access dot left stack => exact afterDot_outcome dot left stack _
  | accessed dot key access left stack =>
    simp only [step]
    split
    · exact .taken (.optional dot key span access left stack)
    · exact (afterOperand_outcome left.alternatives _ stack _).imp fun _ => .plain
  | sliceStart dot left stack =>
    simp only [step]
    split
    · rename_i start _ hstart
      exact .taken (.start (bound_of_bound? hstart) dot span left stack)
    · exact .taken (.noStart dot span left stack)
    · exact outcome_reject _
    · exact outcome_reject _
  | sliceColon dot start left stack =>
    simp only [step]
    split
    · exact .taken (.sliceColon dot span start left stack)
    · exact outcome_reject _
  | sliceStop dot start left stack =>
    simp only [step]
    split
    · rename_i stop _ hstop
      exact .taken (.stop (bound_of_bound? hstop) dot span start left stack)
    · exact .taken (.noStop dot span start left stack)
    · exact outcome_reject _
    · exact outcome_reject _
  | sliceEnd dot start stop left stack =>
    simp only [step]
    split
    · exact .taken (.sliceEnd dot span start stop left stack)
    · exact outcome_reject _
  | entry opening done left stack =>
    simp only [step]
    split
    · rename_i key _ hkey
      exact .taken (.fieldKey (fieldKey_of_fieldKey? hkey) opening span done left stack)
    · exact .taken (.objectEnd opening span done left stack)
    · exact .taken (.objectRest opening span done left stack)
    · exact outcome_reject _
  | fieldMark opening done key left stack =>
    simp only [step]
    split
    · exact .taken (.fieldMark opening span done key left stack)
    · exact .taken (.field opening span done key left stack)
    · exact outcome_reject _
  | fieldColon opening done key left stack =>
    simp only [step]
    split
    · exact .taken (.optionalField opening span done key left stack)
    · exact outcome_reject _
  | element opening done left stack =>
    simp only [step]
    split
    · exact .taken (.arrayEnd opening span done left stack)
    · exact .taken (.arrayRest opening span done left stack)
    · exact (startOperand_outcome .empty ((.item opening done, left) :: stack) _).imp fun _ => .item
  | accepted e => exact .taken (.accepted e _)

/-! ### What a step does -/

/-- A step does what the cases of `Step` say and nothing else. -/
theorem step_iff : step state t = .ok next ↔ Step state t next := by
  constructor
  · intro h
    have houtcome := step_outcome state t
    rw [h] at houtcome
    cases houtcome with
    | taken hstep => exact hstep
  · intro h
    cases h with
    | operand h => exact h.eq
    | operator h => exact h.eq
    | key h dot span left stack => cases h <;> rfl
    | plain h =>
      rw [step]
      split
      · exact absurd ‹_› h.ne_question
      · exact h.eq
    | start h dot span left stack => cases h <;> rfl
    | stop h dot span start left stack => cases h <;> rfl
    | fieldKey h opening span done left stack => rcases h with ⟨⟨⟩⟩ | _ <;> rfl
    | item h =>
      cases h with
      | atom h span => cases h <;> rfl
      | _ => rfl
    | _ => rfl

/-- A token that is refused is to blame, in the construct that the state is in. -/
theorem blames_of_step (h : step state t = .error err) : Blames err t state.context := by
  have houtcome := step_outcome state t
  rw [h] at houtcome
  cases houtcome with
  | refused hblames => exact hblames

end Parser

end DataExpr
