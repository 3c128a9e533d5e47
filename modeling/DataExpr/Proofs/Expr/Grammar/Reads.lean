import DataExpr.Proofs.Expr.Reads
import DataExpr.Proofs.Expr.Steps

/-!
# What the grammar derives is read

Whatever the grammar derives is read by the parser as a tree of that shape, in every place where the
production can stand: `Grammar.Whole.asWhole`, `Grammar.Sequence.asSequence` and
`Grammar.Operand.asOperand`.  The induction is on the derivation, with one lemma about the parser
for each way of making a tree.
-/

namespace DataExpr

namespace Parser

open Grammar (maybe)

variable {ks ks' rest : List TokenKind} {l r e : Expr} {s : Span} {goal : Expr → Prop}
variable {left : Left} {stack : Stack} {opening : Span}

/-! ### Operators -/

theorem AsWhole.alt (hl : AsWhole l ks) (hr : AsSequence r ks') :
    AsWhole ⟨.alt l r, s⟩ (ks ++ .pipe :: ks') := by
  intro goal stack rest hrest hnext
  rw [List.append_assoc]
  refine hl goal stack _ nofun fun alternatives sequence hsame => ?_
  refine reads_step (fun span => rfl) fun span => ?_
  refine hr goal _ stack rest hrest fun r' hr' => hnext _ r' ?_
  rw [joinAlternatives, Expr.sameShape_mk, Expr.Kind.agree]
  exact Bool.and_eq_true_iff.2 ⟨hsame, hr'⟩

theorem AsSequence.seq (hl : AsSequence l ks) (hr : AsOperand r ks') (hbegins : Begins ks') :
    AsSequence ⟨.seq l r, s⟩ (ks ++ ks') := by
  intro goal alternatives stack rest hrest hnext
  -- The right operand is what says that the left one has ended.
  have hbegins := hbegins.append rest
  rw [List.append_assoc]
  refine hl goal alternatives stack _ hbegins.head_ne fun l' hl' => ?_
  -- No token stands between the operands: the first one of the right operand goes on.
  refine reads_operator hbegins ?_
  refine hr goal _ stack rest hrest fun r' hr' => hnext _ ?_
  rw [Left.extend, Expr.sameShape_mk, Expr.Kind.agree]
  exact Bool.and_eq_true_iff.2 ⟨hl', hr'⟩

/-- A postfix operator applies to the sequence before it. -/
theorem AsSequence.postfix {node : Expr → Expr.Kind} {k : TokenKind} (he : AsSequence e ks)
    (hk : k ≠ .question)
    (hstep : ∀ alternatives e' stack span, step (.operator alternatives e' stack) ⟨k, span⟩ =
      .ok (.operator alternatives ⟨node e', e'.span.merge span⟩ stack))
    (hsame : ∀ e', (node e).agree (fun _ _ => true) (node e') = e.sameShape e') :
    AsSequence ⟨node e, s⟩ (ks ++ [k]) := by
  intro goal alternatives stack rest _ hnext
  have hhead : ([k] ++ rest).head? ≠ some .question := fun h => hk (Option.some.inj h)
  rw [List.append_assoc]
  refine he goal alternatives stack _ hhead fun e' he' => ?_
  refine reads_step (hstep alternatives e' stack) fun span => hnext _ ?_
  rw [Expr.sameShape_mk, hsame]
  exact he'

theorem AsSequence.cut (he : AsSequence e ks) : AsSequence ⟨.cut e, s⟩ (ks ++ [.bang]) :=
  he.postfix nofun (fun _ _ _ _ => rfl) fun _ => by rw [Expr.Kind.agree, Expr.sameShape]

theorem AsSequence.lookahead (he : AsSequence e ks) :
    AsSequence ⟨.lookahead e, s⟩ (ks ++ [.amp]) :=
  he.postfix nofun (fun _ _ _ _ => rfl) fun _ => by rw [Expr.Kind.agree, Expr.sameShape]

/-! ### Accesses and atoms -/

theorem sameShape_self (k : Expr.Kind) (h : k.agree (fun _ _ => true) k = true) (s' : Span) :
    Expr.sameShape ⟨k, s⟩ ⟨k, s'⟩ = true := by
  rw [Expr.sameShape_mk]
  exact h

/-- An access by a token that the parser takes as the node's. -/
theorem asOperand_access (node : Bool → Expr.Kind) {k : TokenKind} (optional : Bool)
    (hnode : (node optional).agree (fun _ _ => true) (node optional) = true)
    (hdot : ∀ dot span left stack,
      Step (.access dot left stack) ⟨k, span⟩ (.accessed dot span node left stack)) :
    AsOperand ⟨node optional, s⟩ (.dots 1 :: k :: maybe .question optional) := by
  intro goal left stack rest hrest hnext
  refine reads_step (fun span => rfl) fun dot => ?_
  refine reads_step (fun span => step_iff.2 (hdot dot span left stack)) fun key => ?_
  cases optional with
  | true => exact reads_step (fun span => rfl) fun span => hnext _ (sameShape_self _ hnode _)
  | false => exact reads_accessed hrest (hnext _ (sameShape_self _ hnode _))

/-- The first bound of a slice and the colon after it. -/
theorem reads_sliceStart {start : Option Literal} (h : Grammar.Bound ks start) {dot : Span}
    (hnext : Reads goal (.sliceStop dot start left stack) rest) :
    Reads goal (.sliceStart dot left stack) (ks ++ .colon :: rest) := by
  cases h with
  | absent => exact reads_step (fun span => rfl) fun _ => hnext
  | int n => exact reads_step (fun span => rfl) fun _ => reads_step (fun span => rfl) fun _ => hnext
  | placeholder i =>
    exact reads_step (fun span => rfl) fun _ => reads_step (fun span => rfl) fun _ => hnext

/-- The second bound of a slice and its end. -/
theorem reads_sliceStop {start stop : Option Literal} (h : Grammar.Bound ks stop) {dot : Span}
    (hnext : ∀ s', Reads goal (left.push ⟨.slice start stop, s'⟩ stack) rest) :
    Reads goal (.sliceStop dot start left stack) (ks ++ .rightBracket :: rest) := by
  cases h with
  | absent => exact reads_step (fun span => rfl) fun _ => hnext _
  | int n =>
    exact reads_step (fun span => rfl) fun _ => reads_step (fun span => rfl) fun _ => hnext _
  | placeholder i =>
    exact reads_step (fun span => rfl) fun _ => reads_step (fun span => rfl) fun _ => hnext _

theorem asOperand_slice {start stop : Option Literal} (hstart : Grammar.Bound ks start)
    (hstop : Grammar.Bound ks' stop) :
    AsOperand ⟨.slice start stop, s⟩
      (.dots 1 :: .leftBracket :: (ks ++ .colon :: (ks' ++ [.rightBracket]))) := by
  intro goal left stack rest _ hnext
  have hsame :
      Expr.Kind.agree (fun _ _ => true) (.slice start stop) (.slice start stop) = true := by
    simp [Expr.Kind.agree]
  rw [List.cons_append, List.cons_append, List.append_assoc, List.cons_append, List.append_assoc]
  refine reads_step (fun span => rfl) fun dot => reads_step (fun span => rfl) fun _ => ?_
  refine reads_sliceStart hstart (reads_sliceStop hstop fun s' => ?_)
  exact hnext _ (sameShape_self _ hsame s')

theorem Atom.agree {kind : Expr.Kind} {k : TokenKind} (h : Atom k kind) :
    kind.agree (fun _ _ => true) kind = true := by
  cases h <;> simp [Expr.Kind.agree]

/-- A tree of one token. -/
theorem asOperand_atom {kind : Expr.Kind} {k : TokenKind} (h : Atom k kind) :
    AsOperand ⟨kind, s⟩ [k] := by
  intro goal left stack rest _ hnext
  refine reads_step (fun span => step_iff.2 (.operand (.atom h span))) fun span => ?_
  exact hnext _ (sameShape_self _ h.agree _)

/-! ### Objects and arrays -/

/-- The entries of an object pattern. -/
def objectBrackets (opening : Span) (left : Left) (stack : Stack) : Brackets Expr.ObjectEntry :=
  ⟨.rightBrace, fun done => .entry opening done left stack,
    fun done span => left.push ⟨.object done.reverse, opening.merge span⟩ stack⟩

/-- The entries of an array pattern. -/
def arrayBrackets (opening : Span) (left : Left) (stack : Stack) : Brackets Expr.ArrayEntry :=
  ⟨.rightBracket, fun done => .element opening done left stack,
    fun done span => left.push ⟨.array done.reverse, opening.merge span⟩ stack⟩

/-- Whether two entries of object patterns look alike. -/
def sameEntry (x x' : Expr.ObjectEntry) : Prop := Expr.agreeObject (fun _ _ => true) [x] [x'] = true

/-- Whether two entries of array patterns look alike. -/
def sameElement (x x' : Expr.ArrayEntry) : Prop := Expr.agreeArray (fun _ _ => true) [x] [x'] = true

theorem agreeObject_of_forall₂ {es es' : List Expr.ObjectEntry}
    (h : List.Forall₂ sameEntry es es') :
    Expr.agreeObject (fun _ _ => true) es es' = true := by
  induction h with
  | nil => rw [Expr.agreeObject]
  | @cons x x' es es' hx _ ih =>
    unfold sameEntry at hx
    cases x <;> cases x' <;> simp_all only [Expr.agreeObject, Bool.and_true]

theorem agreeArray_of_forall₂ {es es' : List Expr.ArrayEntry}
    (h : List.Forall₂ sameElement es es') :
    Expr.agreeArray (fun _ _ => true) es es' = true := by
  induction h with
  | nil => rw [Expr.agreeArray]
  | @cons x x' es es' hx _ ih =>
    unfold sameElement at hx
    cases x <;> cases x' <;> simp_all only [Expr.agreeArray, Bool.and_true]

theorem asEntry_field {k : TokenKind} {key : Literal} (hk : Grammar.FieldKey k key)
    (he : AsWhole e ks) (optional : Bool) :
    (objectBrackets opening left stack).AsEntry sameEntry (.field key optional e)
      (k :: (maybe .question optional ++ .colon :: ks)) := by
  intro goal done rest hrest hnext
  have hmark : ∀ span, step (.entry opening done left stack) ⟨k, span⟩ =
      .ok (.fieldMark opening done key left stack) :=
    fun span => step_iff.2 (.fieldKey hk opening span done left stack)
  -- After the colon the value is a whole expression, and its end is that of the entry.
  have hvalue : Reads goal (.operand .empty ((.field opening done key optional, left) :: stack))
      (ks ++ rest) := by
    refine he goal _ rest hrest fun alternatives sequence hsame => ?_
    refine hnext (.field key optional (joinAlternatives alternatives sequence)) _ ?_ ?_
    · simpa [sameEntry, Expr.agreeObject, Expr.sameShape] using hsame
    · exact ⟨fun span => rfl, fun span => rfl⟩
  rw [List.cons_append, List.append_assoc]
  refine reads_step hmark fun _ => ?_
  cases optional with
  | false => exact reads_step (fun span => rfl) fun _ => hvalue
  | true => exact reads_step (fun span => rfl) fun _ => reads_step (fun span => rfl) fun _ => hvalue

theorem asEntry_objectRest (he : AsWhole e ks) :
    (objectBrackets opening left stack).AsEntry sameEntry (.rest e) (.dots 3 :: ks) := by
  intro goal done rest hrest hnext
  refine reads_step (fun span => rfl) fun _ => ?_
  refine he goal _ rest hrest fun alternatives sequence hsame => ?_
  refine hnext (.rest (joinAlternatives alternatives sequence)) _ ?_ ?_
  · simpa [sameEntry, Expr.agreeObject, Expr.sameShape] using hsame
  · exact ⟨fun span => rfl, fun span => rfl⟩

theorem asEntry_item (he : AsWhole e ks) (hbegins : Begins ks) :
    (arrayBrackets opening left stack).AsEntry sameElement (.item e) ks := by
  intro goal done rest hrest hnext
  -- An item has no mark of its own: its first token is the one of its value.
  refine reads_element (hbegins.append rest) ?_
  refine he goal _ rest hrest fun alternatives sequence hsame => ?_
  refine hnext (.item (joinAlternatives alternatives sequence)) _ ?_ ?_
  · simpa [sameElement, Expr.agreeArray, Expr.sameShape] using hsame
  · exact ⟨fun span => rfl, fun span => rfl⟩

theorem asEntry_arrayRest (he : AsWhole e ks) :
    (arrayBrackets opening left stack).AsEntry sameElement (.rest e) (.dots 3 :: ks) := by
  intro goal done rest hrest hnext
  refine reads_step (fun span => rfl) fun _ => ?_
  refine he goal _ rest hrest fun alternatives sequence hsame => ?_
  refine hnext (.rest (joinAlternatives alternatives sequence)) _ ?_ ?_
  · simpa [sameElement, Expr.agreeArray, Expr.sameShape] using hsame
  · exact ⟨fun span => rfl, fun span => rfl⟩

/-- After the last entry a comma may come, and then the mark that ends the list. -/
theorem Brackets.reads_end {α : Type} {brackets : Brackets α} {done : List α} {state : State}
    (h : brackets.AtEnd done state)
    (hclose : ∀ span,
      step (brackets.opened done) ⟨brackets.closing, span⟩ = .ok (brackets.closed done span))
    (comma : Bool) (hnext : ∀ span, Reads goal (brackets.closed done span) rest) :
    Reads goal state (maybe .comma comma ++ brackets.closing :: rest) := by
  cases comma with
  | false => exact reads_step h.close hnext
  | true => exact reads_step h.comma fun _ => reads_step hclose hnext

/-- What follows the last entry is not a question mark. -/
theorem head_maybe_comma (comma : Bool) {k : TokenKind} (hk : k ≠ .question) :
    (maybe .comma comma ++ k :: rest).head? ≠ some .question := by
  cases comma with
  | false => exact fun h => hk (Option.some.inj h)
  | true => exact nofun

theorem asOperand_object {es : List Expr.ObjectEntry} (comma : Bool)
    (hes : ∀ opening left stack,
      (objectBrackets opening left stack).AsEntries sameEntry es ks) :
    AsOperand ⟨.object es, s⟩ (.leftBrace :: (ks ++ (maybe .comma comma ++ [.rightBrace]))) := by
  intro goal left stack rest _ hnext
  rw [List.cons_append, List.append_assoc, List.append_assoc]
  refine reads_step (fun span => rfl) fun opening => ?_
  refine hes opening left stack goal _ (head_maybe_comma comma nofun) fun es' state hsame hend => ?_
  refine Brackets.reads_end hend (fun _ => rfl) comma fun span => hnext _ ?_
  rw [List.reverse_reverse, Expr.sameShape_mk, Expr.Kind.agree]
  exact agreeObject_of_forall₂ hsame

theorem asOperand_array {es : List Expr.ArrayEntry} (comma : Bool)
    (hes : ∀ opening left stack,
      (arrayBrackets opening left stack).AsEntries sameElement es ks) :
    AsOperand ⟨.array es, s⟩ (.leftBracket :: (ks ++ (maybe .comma comma ++ [.rightBracket]))) := by
  intro goal left stack rest _ hnext
  rw [List.cons_append, List.append_assoc, List.append_assoc]
  refine reads_step (fun span => rfl) fun opening => ?_
  refine hes opening left stack goal _ (head_maybe_comma comma nofun) fun es' state hsame hend => ?_
  refine Brackets.reads_end hend (fun _ => rfl) comma fun span => hnext _ ?_
  rw [List.reverse_reverse, Expr.sameShape_mk, Expr.Kind.agree]
  exact agreeArray_of_forall₂ hsame

/-- An object or array pattern without entries. -/
theorem asOperand_empty {kind : Expr.Kind} {k k' : TokenKind} (next : Span → Left → Stack → State)
    (hsame : kind.agree (fun _ _ => true) kind = true)
    (hstart : ∀ left stack span, Starts left stack ⟨k, span⟩ (next span left stack))
    (hclose : ∀ left stack opening span,
      Step (next opening left stack) ⟨k', span⟩ (left.push ⟨kind, opening.merge span⟩ stack)) :
    AsOperand ⟨kind, s⟩ [k, k'] := by
  intro goal left stack rest _ hnext
  refine reads_step (fun span => step_iff.2 (.operand (hstart left stack span))) fun opening => ?_
  refine reads_step (fun span => step_iff.2 (hclose left stack opening span)) fun span => ?_
  exact hnext _ (sameShape_self _ hsame _)

end Parser

namespace Grammar

open DataExpr.Parser

/-! ### Derivations -/

theorem Operand.begins {ks : List TokenKind} {e : Expr} (h : Operand ks e) : Begins ks := by
  cases h <;> exact ⟨_, _, rfl, rfl⟩

theorem Sequence.begins : ∀ {ks : List TokenKind} {e : Expr}, Sequence ks e → Begins ks
  | _, _, .operand h => h.begins
  | _, _, .seq hl _ _ => hl.begins.append _
  | _, _, .cut h _ => h.begins.append _
  | _, _, .lookahead h _ => h.begins.append _

theorem Whole.begins : ∀ {ks : List TokenKind} {e : Expr}, Whole ks e → Begins ks
  | _, _, .sequence h => h.begins
  | _, _, .alt hl _ _ => hl.begins.append _

mutual

/-- An expression is read as a whole. -/
theorem Whole.asWhole : ∀ {ks : List TokenKind} {e : Expr}, Whole ks e → AsWhole e ks
  | _, _, .sequence h => h.asSequence.asWhole
  | _, _, .alt hl hr _ => hl.asWhole.alt hr.asSequence

/-- A sequence is read as a sequence. -/
theorem Sequence.asSequence : ∀ {ks : List TokenKind} {e : Expr}, Sequence ks e → AsSequence e ks
  | _, _, .operand h => h.asOperand.asSequence
  | _, _, .seq hl hr _ => hl.asSequence.seq hr.asOperand hr.begins
  | _, _, .cut h _ => h.asSequence.cut
  | _, _, .lookahead h _ => h.asSequence.lookahead

/-- An operand is read as one. -/
theorem Operand.asOperand : ∀ {ks : List TokenKind} {e : Expr}, Operand ks e → AsOperand e ks
  | _, _, .group h _ => h.asWhole.parentheses
  | _, _, .emptyObject _ =>
    asOperand_empty (fun span left stack => .entry span [] left stack)
      (by rw [Expr.Kind.agree, Expr.agreeObject]) (fun _ _ => .object)
      fun left stack opening span => .objectEnd opening span [] left stack
  | _, _, .object h comma _ => asOperand_object comma fun _ _ _ => h.asEntries
  | _, _, .emptyArray _ =>
    asOperand_empty (fun span left stack => .element span [] left stack)
      (by rw [Expr.Kind.agree, Expr.agreeArray]) (fun _ _ => .array)
      fun left stack opening span => .arrayEnd opening span [] left stack
  | _, _, .array h comma _ => asOperand_array comma fun _ _ _ => h.asEntries
  | _, _, .key (l := l) h optional _ =>
    asOperand_access (.key l) optional (by simp [Expr.Kind.agree]) (.key h)
  | _, _, .index n optional _ =>
    asOperand_access (.index (.int n)) optional (by simp [Expr.Kind.agree]) (.index n)
  | _, _, .slice hstart hstop _ => asOperand_slice hstart hstop
  | _, _, .spread _ => asOperand_atom .spread
  | _, _, .descent _ => asOperand_atom .descent
  | _, _, .self _ => asOperand_atom .self
  | _, _, .str text _ => asOperand_atom (.str text)
  | _, _, .int n _ => asOperand_atom (.int n)
  | _, _, .placeholder i _ => asOperand_atom (.placeholder i)

theorem Field.asEntry {opening : Span} {left : Left} {stack : Stack} :
    ∀ {ks : List TokenKind} {x : Expr.ObjectEntry}, Field ks x →
      (objectBrackets opening left stack).AsEntry sameEntry x ks
  | _, _, .field hk optional h => asEntry_field hk h.asWhole optional
  | _, _, .rest h => asEntry_objectRest h.asWhole

theorem Fields.asEntries {opening : Span} {left : Left} {stack : Stack} :
    ∀ {ks : List TokenKind} {es : List Expr.ObjectEntry}, Fields ks es →
      (objectBrackets opening left stack).AsEntries sameEntry es ks
  | _, _, .one h => h.asEntry.asEntries
  | _, _, .more hes h => hes.asEntries.snoc h.asEntry

theorem Element.asEntry {opening : Span} {left : Left} {stack : Stack} :
    ∀ {ks : List TokenKind} {x : Expr.ArrayEntry}, Element ks x →
      (arrayBrackets opening left stack).AsEntry sameElement x ks
  | _, _, .item h => asEntry_item h.asWhole h.begins
  | _, _, .rest h => asEntry_arrayRest h.asWhole

theorem Elements.asEntries {opening : Span} {left : Left} {stack : Stack} :
    ∀ {ks : List TokenKind} {es : List Expr.ArrayEntry}, Elements ks es →
      (arrayBrackets opening left stack).AsEntries sameElement es ks
  | _, _, .one h => h.asEntry.asEntries
  | _, _, .more hes h => hes.asEntries.snoc h.asEntry

end

end Grammar

/-- Tokens that derive an expression are parsed, as a tree of its shape. -/
theorem Expr.parse_of_whole {ts : List Token} {ks : List TokenKind} {e : Expr}
    (h : Grammar.Whole ks e) (hkinds : ts.map Token.kind = ks ++ [.eof]) :
    ∃ e', parse ts = .ok e' ∧ e.sameShape e' = true := by
  have hbegins : Parser.Begins (ts.map Token.kind) := by
    rw [hkinds]
    exact h.begins.append _
  have hreads : Parser.Reads (e.sameShape · = true) (.operand .empty []) (ts.map Token.kind) := by
    rw [hkinds]
    refine h.asWhole _ [] [.eof] nofun fun _ _ hsame => ?_
    -- The end of the text accepts what has been read.
    exact Parser.reads_step (fun span => rfl) fun span => ⟨_, rfl, hsame⟩
  rw [parse_of_begins hbegins]
  exact Parser.run_of_reads hreads

end DataExpr
