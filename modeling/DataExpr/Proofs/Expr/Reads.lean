import DataExpr.Expr.Parser
import Mathlib.Data.List.Forall2

/-!
# Reading the tokens of a tree

`Parser.Reads goal state ks` says that the parser, in the given state, takes tokens of the kinds
`ks` and then has read a tree with the property `goal`, whatever the spans of the tokens are.  A
token moves the state on (`reads_step`), so a statement about a list of tokens is one about what is
left of it.

Tokens are read as a tree in three ways, by the place where they stand: as a single operand
(`AsOperand`), as a sequence of operands (`AsSequence`), or as a whole expression (`AsWhole`).  Each
way gives the next, and parentheses lead back from the last to the first (`AsWhole.parentheses`).
Entries between brackets are read one by one (`Brackets.AsEntry`) or as a list
(`Brackets.AsEntries`).
-/

namespace DataExpr

/-- Whether two trees look alike depends on their nodes alone. -/
theorem Expr.sameShape_mk (k k' : Kind) (s s' : Span) :
    sameShape ⟨k, s⟩ ⟨k', s'⟩ = k.agree (fun _ _ => true) k' := by
  rw [sameShape, agree, Bool.true_and]

namespace Parser

/-! ### Reading -/

/-- Whether tokens of the given kinds complete the state to a tree with the property. -/
def Reads (goal : Expr → Prop) : State → List TokenKind → Prop
  | state, [] => ∃ e, state = .accepted e ∧ goal e
  | state, k :: ks => ∀ span, ∃ next, step state ⟨k, span⟩ = .ok next ∧ Reads goal next ks

variable {goal : Expr → Prop} {state : State} {k : TokenKind} {ks rest : List TokenKind}

theorem reads_step {next : Span → State} (hstep : ∀ span, step state ⟨k, span⟩ = .ok (next span))
    (hnext : ∀ span, Reads goal (next span) ks) : Reads goal state (k :: ks) :=
  fun span => ⟨next span, hstep span, hnext span⟩

/-- Two states from which every token of the kind leads to the same state. -/
theorem reads_congr {other : State} (h : ∀ span, step state ⟨k, span⟩ = step other ⟨k, span⟩)
    (hother : Reads goal other (k :: ks)) : Reads goal state (k :: ks) := by
  intro span
  rw [h span]
  exact hother span

/-- Tokens that complete a state are run to a tree with the property. -/
theorem run_of_reads {ts : List Token} (h : Reads goal state (ts.map Token.kind)) :
    ∃ e, run state ts = .ok e ∧ goal e := by
  induction ts generalizing state with
  | nil =>
    obtain ⟨e, rfl, he⟩ := h
    exact ⟨e, by rw [run], he⟩
  | cons t ts ih =>
    obtain ⟨next, hstep, hnext⟩ := h t.span
    obtain ⟨e, hrun, he⟩ := ih hnext
    refine ⟨e, ?_, he⟩
    cases state with
    | accepted e' =>
      -- Nothing changes any more once the expression is complete.
      cases hstep
      rw [run] at hrun ⊢
      exact hrun
    | _ =>
      rw [run, hstep]
      · exact hrun
      · exact nofun

/-! ### Handing over to an operand -/

/-- Whether the first of the tokens can begin an operand. -/
def Begins (ks : List TokenKind) : Prop := ∃ k ks', ks = k :: ks' ∧ k.startsOperand = true

theorem Begins.append (h : Begins ks) (rest : List TokenKind) : Begins (ks ++ rest) := by
  obtain ⟨k, ks', rfl, hk⟩ := h
  exact ⟨k, ks' ++ rest, rfl, hk⟩

theorem Begins.head_ne (h : Begins ks) : ks.head? ≠ some .question := by
  obtain ⟨k, ks', rfl, hk⟩ := h
  intro hhead
  cases hhead
  exact Bool.false_ne_true hk

variable {left : Left} {stack : Stack} {alternatives : Option Expr} {sequence : Expr}
variable {dot key : Span}

/-- After an operand the next one goes on with the sequence. -/
theorem reads_operator (h : Begins ks)
    (hoperand : Reads goal (.operand ⟨alternatives, some sequence⟩ stack) ks) :
    Reads goal (.operator alternatives sequence stack) ks := by
  obtain ⟨k, ks', rfl, hk⟩ := h
  refine reads_congr (fun span => ?_) hoperand
  cases k <;> first | rfl | exact absurd hk Bool.false_ne_true

/-- A run of dots begins an operand if it is a single one. -/
theorem startsOperand_dots : ∀ {n : Nat}, (TokenKind.dots n).startsOperand = true → n = 1
  | 0, h => absurd h Bool.false_ne_true
  | 1, _ => rfl
  | _ + 2, h => absurd h Bool.false_ne_true

/-- What begins an operand begins an item of an array pattern. -/
theorem reads_element {opening : Span} {done : List Expr.ArrayEntry} (h : Begins ks)
    (hoperand : Reads goal (.operand .empty ((.item opening done, left) :: stack)) ks) :
    Reads goal (.element opening done left stack) ks := by
  obtain ⟨k, ks', rfl, hk⟩ := h
  refine reads_congr (fun span => ?_) hoperand
  cases k with
  | dots n =>
    -- Three dots would be a rest entry.
    rw [startsOperand_dots hk]
    rfl
  | _ => first | rfl | exact absurd hk Bool.false_ne_true

/-- An access that no question mark follows. -/
theorem reads_accessed {node : Bool → Expr.Kind} (hks : ks.head? ≠ some .question)
    (hpush : Reads goal (left.push ⟨node false, dot.merge key⟩ stack) ks) :
    Reads goal (.accessed dot key node left stack) ks := by
  cases ks with
  | nil =>
    obtain ⟨e, he, _⟩ := hpush
    exact absurd he nofun
  | cons k ks =>
    refine reads_congr (fun span => ?_) hpush
    cases k with
    | question => exact absurd rfl hks
    | _ => rfl

/-! ### The three ways to read a tree -/

variable {e : Expr}

/-- Whether the tokens are read as an operand that looks like the tree. -/
def AsOperand (e : Expr) (ks : List TokenKind) : Prop :=
  ∀ goal left stack rest, rest.head? ≠ some .question →
    (∀ e', e.sameShape e' = true → Reads goal (left.push e' stack) rest) →
    Reads goal (.operand left stack) (ks ++ rest)

/-- Whether the tokens are read as a sequence that looks like the tree. -/
def AsSequence (e : Expr) (ks : List TokenKind) : Prop :=
  ∀ goal alternatives stack rest, rest.head? ≠ some .question →
    (∀ e', e.sameShape e' = true → Reads goal (.operator alternatives e' stack) rest) →
    Reads goal (.operand ⟨alternatives, none⟩ stack) (ks ++ rest)

/-- Whether the tokens are read as a whole expression that looks like the tree. -/
def AsWhole (e : Expr) (ks : List TokenKind) : Prop :=
  ∀ goal stack rest, rest.head? ≠ some .question →
    (∀ alternatives sequence, e.sameShape (joinAlternatives alternatives sequence) = true →
      Reads goal (.operator alternatives sequence stack) rest) →
    Reads goal (.operand .empty stack) (ks ++ rest)

theorem AsOperand.asSequence (h : AsOperand e ks) : AsSequence e ks := by
  intro goal alternatives stack rest hrest hnext
  exact h goal ⟨alternatives, none⟩ stack rest hrest hnext

theorem AsSequence.asWhole (h : AsSequence e ks) : AsWhole e ks := by
  intro goal stack rest hrest hnext
  exact h goal none stack rest hrest fun e' he' => hnext none e' he'

theorem sameShape_kind {a : Expr} {s s' : Span} (h : e.sameShape a = true) :
    Expr.sameShape ⟨e.kind, s⟩ ⟨a.kind, s'⟩ = true := by
  obtain ⟨kind, span⟩ := e
  obtain ⟨kind', span'⟩ := a
  rwa [Expr.sameShape_mk] at h ⊢

/-- A whole expression in parentheses is an operand. -/
theorem AsWhole.parentheses {s : Span} (h : AsWhole e ks) :
    AsOperand ⟨e.kind, s⟩ (.leftParen :: (ks ++ [.rightParen])) := by
  intro goal left stack rest _ hnext
  rw [List.cons_append, List.append_assoc]
  refine reads_step (fun span => rfl) fun span => ?_
  refine h goal _ (.rightParen :: rest) nofun fun alternatives sequence hsame => ?_
  -- The closing parenthesis gives what was read the span of the parentheses.
  exact reads_step (fun span => rfl) fun span' => hnext _ (sameShape_kind hsame)

/-! ### Lists of entries -/

/-- How a list of entries is read: the mark that ends it, the state in which an entry or the end
must come, and the state after the end.  Entries that are done are kept latest first. -/
structure Brackets (α : Type) where
  closing : TokenKind
  opened : List α → State
  closed : List α → Span → State

namespace Brackets

variable {α : Type} (brackets : Brackets α) {same : α → α → Prop}

/-- Whether an entry has been read up to the comma or mark after it. -/
structure AtEnd (done : List α) (state : State) : Prop where
  comma : ∀ span, step state ⟨.comma, span⟩ = .ok (brackets.opened done)
  close : ∀ span, step state ⟨brackets.closing, span⟩ = .ok (brackets.closed done span)

/-- Whether the tokens are read as an entry that looks like the given one. -/
def AsEntry (same : α → α → Prop) (x : α) (ks : List TokenKind) : Prop :=
  ∀ goal done rest, rest.head? ≠ some .question →
    (∀ x' state, same x x' → brackets.AtEnd (x' :: done) state → Reads goal state rest) →
    Reads goal (brackets.opened done) (ks ++ rest)

/-- Whether the tokens are read as entries that look like the given ones, up to the comma or mark
after the last of them. -/
def AsEntries (same : α → α → Prop) (es : List α) (ks : List TokenKind) : Prop :=
  ∀ goal rest, rest.head? ≠ some .question →
    (∀ es' state, List.Forall₂ same es es' → brackets.AtEnd es'.reverse state →
      Reads goal state rest) →
    Reads goal (brackets.opened []) (ks ++ rest)

variable {brackets} {x : α} {es : List α} {ks' : List TokenKind}

theorem AsEntry.asEntries (h : brackets.AsEntry same x ks) : brackets.AsEntries same [x] ks := by
  intro goal rest hrest hnext
  exact h goal [] rest hrest fun x' state hsame => hnext [x'] state (.cons hsame .nil)

/-- An entry after a comma is read after the entries before it. -/
theorem AsEntries.snoc (hes : brackets.AsEntries same es ks) (h : brackets.AsEntry same x ks') :
    brackets.AsEntries same (es ++ [x]) (ks ++ .comma :: ks') := by
  intro goal rest hrest hnext
  rw [List.append_assoc]
  refine hes goal _ nofun fun es' state hsame hend => ?_
  refine reads_step hend.comma fun _ => h goal es'.reverse rest hrest fun x' state' hx' hend' => ?_
  refine hnext (es' ++ [x']) state' (List.rel_append hsame (.cons hx' .nil)) ?_
  rw [List.reverse_append]
  exact hend'

end Brackets

end Parser

/-- Tokens that begin an operand are parsed by the run of the parser. -/
theorem Expr.parse_of_begins {ts : List Token} (h : Parser.Begins (ts.map Token.kind)) :
    parse ts = Parser.run (.operand .empty []) ts := by
  obtain ⟨k, ks, hks, hk⟩ := h
  cases ts with
  | nil => exact absurd hks nofun
  | cons t ts =>
    have hkind : t.kind = k := (List.cons.inj hks).1
    have heof : t.kind ≠ .eof := by
      intro heof
      rw [hkind] at heof
      rw [heof] at hk
      exact Bool.false_ne_true hk
    rw [parse, if_neg heof]

end DataExpr
