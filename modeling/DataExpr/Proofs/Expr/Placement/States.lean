import DataExpr.Proofs.Expr.Placement.Pending
import DataExpr.Proofs.Expr.Viable

/-!
# Trees of the parser are in their places

`Parser.State.Placed state ts` says that the tokens `ts`, which lead to the state, are those of its
trees: what stands to the left of the operand, the open constructs with what is done inside them, and
the operand that has begun each have their own tokens, one after the other, and all trees are in their
places over theirs.

Every step keeps this if the tokens are in order (`Parser.placed_step`), so a tree that is read is in
its place over all tokens before the end mark (`Expr.placed_of_parse`).
-/

namespace DataExpr

namespace Parser

open Grammar (Whole Sequence Operand maybe)
open Token (InOrder)

/-! ### Tokens of a state -/

/-- The tokens of alternatives, with the mark after them. -/
inductive AlternativesPlaced : Option Expr → List Token → Prop where
  | none : AlternativesPlaced none []
  | some {ts : List Token} {e : Expr} {t : Token} (h : Expr.Placed Whole ts e)
      (ht : t.kind = .pipe) : AlternativesPlaced (some e) (ts ++ [t])

/-- The tokens of a sequence that may be empty. -/
inductive SequencePlaced : Option Expr → List Token → Prop where
  | none : SequencePlaced none []
  | some {ts : List Token} {e : Expr} (h : Expr.Placed Sequence ts e) : SequencePlaced (some e) ts

/-- The tokens of what stands to the left of an operand. -/
inductive Left.Placed (left : Left) : List Token → Prop where
  | mk {ta tq : List Token} (halternatives : AlternativesPlaced left.alternatives ta)
      (hsequence : SequencePlaced left.sequence tq) : Placed left (ta ++ tq)

/-- The tokens of an operand that has begun with a token of the given span, with the trees among them
that are done. -/
structure Begun (opening : Span) (parts : List Expr) (ts : List Token) : Prop where
  head : ∃ first rest, ts = first :: rest ∧ first.span = opening
  laid : Expr.Laid ts parts

/-- The tokens of a construct up to the expression inside it. -/
structure Frame.Placed (frame : Frame) (ts : List Token) : Prop where
  read : frame.Read (ts.map Token.kind)
  begun : Begun frame.opening frame.parts ts

/-- The tokens of the open constructs, each after what stands to its left. -/
inductive Stack.Placed : Stack → List Token → Prop where
  | nil : Placed [] []
  | cons {stack : Stack} {left : Left} {frame : Frame} {ts tl tf : List Token}
      (hstack : Placed stack ts) (hleft : left.Placed tl) (hframe : frame.Placed tf) :
      Placed ((frame, left) :: stack) (ts ++ (tl ++ tf))

/-- The tokens before an operand. -/
inductive PlacedBefore (left : Left) (stack : Stack) : List Token → Prop where
  | mk {ts tl : List Token} (hstack : Stack.Placed stack ts) (hleft : left.Placed tl) :
      PlacedBefore left stack (ts ++ tl)

/-- The tokens that lead to a state. -/
inductive State.Placed : State → List Token → Prop where
  | operand {left : Left} {stack : Stack} {ts : List Token} (h : PlacedBefore left stack ts) :
      Placed (.operand left stack) ts
  | operator {alternatives : Option Expr} {sequence : Expr} {stack : Stack} {ts ta tq : List Token}
      (hstack : Stack.Placed stack ts) (halternatives : AlternativesPlaced alternatives ta)
      (hsequence : Expr.Placed Sequence tq sequence) :
      Placed (.operator alternatives sequence stack) (ts ++ (ta ++ tq))
  | pending {state : Left → Stack → State} {opening : Span} {parts : List Expr} {left : Left}
      {stack : Stack} {ts tb : List Token} (h : PlacedBefore left stack ts)
      (hpending : Pending state opening parts)
      (hread : (state .empty []).Read (tb.map Token.kind)) (hbegun : Begun opening parts tb) :
      Placed (state left stack) (ts ++ tb)
  /-- With or without a question mark the access is an operand. -/
  | accessed {dot key : Span} {node : Bool → Expr.Kind} {left : Left} {stack : Stack}
      {ts tb : List Token} (h : PlacedBefore left stack ts)
      (hplain : Expr.Placed Operand tb ⟨node false, dot.merge key⟩)
      (hoptional : ∀ t, t.kind = .question → InOrder (tb ++ [t]) →
        Expr.Placed Operand (tb ++ [t]) ⟨node true, dot.merge t.span⟩) :
      Placed (.accessed dot key node left stack) (ts ++ tb)
  | accepted {e : Expr} {ts : List Token} {t : Token} (h : Expr.Placed Whole ts e)
      (ht : t.kind = .eof) : Placed (.accepted e) (ts ++ [t])

variable {left : Left} {stack : Stack} {alternatives : Option Expr} {sequence e : Expr}
variable {state next : State} {frame : Frame} {opening : Span} {parts : List Expr}
variable {t : Token} {ts ta tq te tf tb : List Token}

/-! ### Parts of a level -/

theorem placed_joinAlternatives (ha : AlternativesPlaced alternatives ta)
    (hq : Expr.Placed Sequence tq sequence) (horder : InOrder (ta ++ tq)) :
    Expr.Placed Whole (ta ++ tq) (joinAlternatives alternatives sequence) := by
  cases ha with
  | none => exact hq.whole
  | some h ht =>
    rw [List.append_assoc] at horder ⊢
    exact .alt horder h ht hq

theorem placed_extend (hq : SequencePlaced left.sequence tq) (he : Expr.Placed Operand te e)
    (horder : InOrder (tq ++ te)) : Expr.Placed Sequence (tq ++ te) (left.extend e) := by
  obtain ⟨alternatives, sequence⟩ := left
  cases hq with
  | none => exact he.sequence
  | some h => exact .seq horder h he

/-- After an operand. -/
theorem PlacedBefore.push (h : PlacedBefore left stack ts) (he : Expr.Placed Operand te e)
    (horder : InOrder (ts ++ te)) : (left.push e stack).Placed (ts ++ te) := by
  obtain ⟨hstack, ⟨ha, hq⟩⟩ := h
  rw [List.append_assoc, List.append_assoc] at horder ⊢
  exact .operator hstack ha (placed_extend hq he horder.of_append_right.of_append_right)

theorem placed_empty : Left.empty.Placed [] := by
  have h : Left.empty.Placed ([] ++ []) := .mk .none .none
  exact h

/-- Inside a construct that has just been opened. -/
theorem PlacedBefore.inside (h : PlacedBefore left stack ts) (hframe : frame.Placed tf) :
    PlacedBefore .empty ((frame, left) :: stack) (ts ++ tf) := by
  obtain ⟨hstack, hleft⟩ := h
  have hinner := PlacedBefore.mk (.cons hstack hleft hframe) placed_empty
  rwa [List.append_nil, ← List.append_assoc] at hinner

/-! ### Operands that have begun -/

theorem begun_singleton (t : Token) : Begun t.span [] [t] := ⟨⟨t, [], rfl, rfl⟩, .nil _⟩

theorem Begun.append (h : Begun opening parts ts) (post : List Token) :
    Begun opening parts (ts ++ post) := by
  obtain ⟨⟨first, rest, rfl, hfirst⟩, hlaid⟩ := h
  exact ⟨⟨first, rest ++ post, rfl, hfirst⟩, hlaid.before post⟩

/-- An operand that ends with the token. -/
theorem Begun.closed {kind : Expr.Kind} (h : Begun opening parts tb) (horder : InOrder (tb ++ [t]))
    (hparts : kind.children = parts)
    (hoperand : Operand (tb.map Token.kind ++ [t.kind]) ⟨kind, opening.merge t.span⟩) :
    Expr.Placed Operand (tb ++ [t]) ⟨kind, opening.merge t.span⟩ := by
  obtain ⟨⟨first, rest, rfl, rfl⟩, hlaid⟩ := h
  subst hparts
  refine .closed horder ?_ hlaid
  rwa [List.map_append]

/-- The expression inside a construct ends. -/
theorem Frame.Placed.begunWith (h : frame.Placed tf) (he : Expr.Placed Whole te e) :
    Begun frame.opening (frame.partsWith e) (tf ++ te) := by
  refine ⟨(h.begun.append te).head, ?_⟩
  cases frame with
  | group opening => exact he.parts.after tf
  | _ => exact h.begun.laid.append he.laid

/-! ### Steps -/

theorem Atom.children {k : TokenKind} {kind : Expr.Kind} (h : Atom k kind) : kind.children = [] := by
  cases h <;> rfl

theorem placed_starts (h : PlacedBefore left stack ts) (horder : InOrder (ts ++ [t]))
    (hnext : Starts left stack t next) : next.Placed (ts ++ [t]) := by
  have hbegun : Begun t.span [] [t] := begun_singleton t
  cases hnext with
  | group span =>
    have hgroup : (Frame.group span).Placed [⟨.leftParen, span⟩] := ⟨.group span, hbegun⟩
    exact .operand (h.inside hgroup)
  | object span => exact .pending h (.entry span []) (.entry span before_empty .none) hbegun
  | array span => exact .pending h (.element span []) (.element span before_empty .none) hbegun
  | access span => exact .pending h (.access span) (.access span before_empty) hbegun
  | atom hatom span => exact h.push (.atom (hatom.operand span) hatom.children) horder

/-- What a token does to an operand that has begun keeps all trees in their places. -/
theorem placed_advance (h : PlacedBefore left stack ts) (hbegun : Begun opening parts tb)
    (horder : InOrder (ts ++ (tb ++ [t])))
    (hadvance : Advance opening parts (tb.map Token.kind) t left stack next) :
    next.Placed (ts ++ (tb ++ [t])) := by
  have hinner : InOrder (tb ++ [t]) := horder.of_append_right
  have hkinds : (tb ++ [t]).map Token.kind = tb.map Token.kind ++ [t.kind] := by
    rw [List.map_append]
    rfl
  cases hadvance with
  | more hpending hread => exact .pending h hpending (hkinds ▸ hread) (hbegun.append [t])
  | done hparts hoperand => exact h.push (hbegun.closed hinner hparts hoperand) horder
  | inside hopening hparts hread =>
    subst hopening hparts
    exact .operand (h.inside ⟨hkinds ▸ hread, hbegun.append [t]⟩)
  | first hopening hparts hread hnext =>
    subst hopening hparts
    rw [← List.append_assoc] at horder ⊢
    exact placed_starts (h.inside ⟨hread, hbegun⟩) horder hnext
  | accessed hparts hoperand =>
    refine .accessed h (hbegun.closed hinner (hparts false) (hoperand false _)) ?_
    intro t' ht' horder'
    refine (hbegun.append [t]).closed horder' (hparts true) ?_
    rw [hkinds, ht', List.append_assoc]
    exact hoperand true _

theorem placed_ends (hs : Stack.Placed stack ts) (he : Expr.Placed Whole te e)
    (horder : InOrder (ts ++ te ++ [t])) (hnext : Ends e stack t next) :
    next.Placed (ts ++ te ++ [t]) := by
  cases hs with
  | nil =>
    cases hnext
    exact .accepted he rfl
  | cons hstack hleft hframe =>
    have hadvance := advance_ends hframe.read he.derived hnext
    rw [← List.map_append] at hadvance
    have hall := placed_advance (.mk hstack hleft) (hframe.begunWith he) (by simpa using horder)
      hadvance
    simpa using hall

theorem placed_continues (hs : Stack.Placed stack ts) (ha : AlternativesPlaced alternatives ta)
    (hq : Expr.Placed Sequence tq sequence) (horder : InOrder (ts ++ (ta ++ tq) ++ [t]))
    (hnext : Continues alternatives sequence stack t next) :
    next.Placed (ts ++ (ta ++ tq) ++ [t]) := by
  have hinner : InOrder (ta ++ (tq ++ [t])) := by
    simp only [List.append_assoc] at horder
    exact horder.of_append_right
  have hwhole : Expr.Placed Whole (ta ++ tq) (joinAlternatives alternatives sequence) := by
    refine placed_joinAlternatives ha hq ?_
    rw [← List.append_assoc] at hinner
    exact hinner.of_append_left
  have hmark : InOrder (tq ++ [t]) := hinner.of_append_right
  cases hnext with
  | cut span =>
    have hcut : Expr.Placed Sequence (tq ++ [⟨.bang, span⟩]) ⟨.cut sequence, _⟩ :=
      hq.mark hmark rfl fun s => .cut hq.derived s
    simpa using State.Placed.operator hs ha hcut
  | lookahead span =>
    have hlookahead : Expr.Placed Sequence (tq ++ [⟨.amp, span⟩]) ⟨.lookahead sequence, _⟩ :=
      hq.mark hmark rfl fun s => .lookahead hq.derived s
    simpa using State.Placed.operator hs ha hlookahead
  | alternative span =>
    have hpipe : (⟨.pipe, span⟩ : Token).kind = .pipe := rfl
    have halternatives : PlacedBefore ⟨some _, none⟩ stack _ :=
      .mk hs (.mk (.some hwhole hpipe) .none)
    exact .operand (by simpa using halternatives)
  | operand hstart =>
    -- The next operand goes on with the sequence.
    have hbefore : PlacedBefore ⟨alternatives, some sequence⟩ stack (ts ++ (ta ++ tq)) :=
      .mk hs (.mk ha (.some hq))
    exact placed_starts hbefore horder hstart
  | close hend => exact placed_ends hs hwhole horder hend

/-- The token comes after an operand that ends with the one before it. -/
theorem placed_afterPush (h : PlacedBefore left stack ts) (he : Expr.Placed Operand te e)
    (horder : InOrder (ts ++ te ++ [t]))
    (hnext : Continues left.alternatives (left.extend e) stack t next) :
    next.Placed (ts ++ te ++ [t]) := by
  obtain ⟨hstack, ⟨ha, hq⟩⟩ := h
  have hinner := horder.of_append_left
  rw [List.append_assoc, List.append_assoc] at hinner
  have hextend := placed_extend hq he hinner.of_append_right.of_append_right
  have hafter := placed_continues hstack ha hextend (by simpa using horder) hnext
  simpa only [List.append_assoc] using hafter

/-- A step keeps all trees in their places. -/
theorem placed_step (h : state.Placed ts) (hopen : ∀ e, state ≠ .accepted e)
    (horder : InOrder (ts ++ [t])) (hnext : Step state t next) : next.Placed (ts ++ [t]) := by
  cases h with
  | operand h =>
    cases hnext with
    | operand hstart => exact placed_starts h horder hstart
  | operator hs ha hq =>
    cases hnext with
    | operator hcontinues => exact placed_continues hs ha hq horder hcontinues
  | pending h hpending hread hbegun =>
    rw [List.append_assoc] at horder ⊢
    exact placed_advance h hbegun horder (hpending.advance hread hnext)
  | accessed h hplain hoptional =>
    cases hnext with
    | optional _ _ span =>
      rw [List.append_assoc] at horder ⊢
      exact h.push (hoptional _ rfl horder.of_append_right) horder
    | plain hcontinues => exact placed_afterPush h hplain horder hcontinues
  | accepted h ht => exact absurd rfl (hopen _)

/-! ### Runs -/

theorem State.Placed.of_accepted (h : (State.accepted e).Placed ts) :
    ∃ ts' stop, ts = ts' ++ [stop] ∧ Expr.Placed Whole ts' e ∧ stop.kind = .eof := by
  generalize hs : State.accepted e = state at h
  cases h with
  | accepted h ht =>
    cases hs
    exact ⟨_, _, rfl, h, ht⟩
  | pending h hpending => exact absurd hs.symm (hpending.ne_accepted _ _ e)
  | _ => cases hs

/-- A run that ends with a tree has read tokens over which the tree is in its place, and the end mark
after them. -/
theorem placed_of_run (h : state.Placed ts) {rest : List Token} (horder : InOrder (ts ++ rest))
    (hrun : run state rest = .ok e) :
    ∃ ts' stop, Expr.Placed Whole ts' e ∧ stop.kind = .eof ∧ ts' ++ [stop] <+: ts ++ rest := by
  induction rest generalizing state ts with
  | nil =>
    cases state with
    | accepted e' =>
      cases hrun
      obtain ⟨ts', stop, rfl, hplaced, hstop⟩ := h.of_accepted
      exact ⟨ts', stop, hplaced, hstop, List.prefix_append _ _⟩
    | _ => cases hrun
  | cons t rest ih =>
    by_cases haccepted : ∃ e', state = .accepted e'
    · obtain ⟨e', rfl⟩ := haccepted
      cases hrun
      obtain ⟨ts', stop, rfl, hplaced, hstop⟩ := h.of_accepted
      exact ⟨ts', stop, hplaced, hstop, List.prefix_append _ _⟩
    · have hopen : ∀ e', state ≠ .accepted e' := fun e' he' => haccepted ⟨e', he'⟩
      rw [run_cons] at hrun
      cases hstep : step state t with
      | error err =>
        rw [hstep] at hrun
        cases hrun
      | ok next =>
        rw [hstep] at hrun
        rw [List.append_cons] at horder ⊢
        exact ih (placed_step h hopen horder.of_append_left (step_iff.1 hstep)) horder hrun

end Parser

/-- A tree that is parsed is in its place over all tokens before the end mark. -/
theorem Expr.placed_of_parse {ts : List Token} {stop : Token} {e : Expr}
    (hts : ∀ t ∈ ts, t.kind ≠ .eof) (horder : Token.InOrder (ts ++ [stop]))
    (h : parse (ts ++ [stop]) = .ok e) : Placed Grammar.Whole ts e := by
  have hempty : Parser.PlacedBefore .empty [] ([] ++ []) := .mk .nil Parser.placed_empty
  obtain ⟨ts', stop', hplaced, hstop', hprefix⟩ :=
    Parser.placed_of_run (.operand hempty) horder (run_of_parse h)
  rcases List.prefix_concat_iff.1 hprefix with heq | hshorter
  · rw [← (List.append_inj' heq rfl).1]
    exact hplaced
  · -- No end mark comes before the last token.
    have hmem : stop' ∈ ts := hshorter.subset (List.mem_append_right _ List.mem_cons_self)
    exact absurd hstop' (hts stop' hmem)

end DataExpr
