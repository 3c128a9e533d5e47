import DataExpr.Proofs.Expr.Printable
import DataExpr.Proofs.Expr.Grammar.Reads
import DataExpr.Proofs.Token.Order

/-!
# Where the parts of a tree stand

`Expr.Placed P ts e` says that a tree is in its place over tokens: the production `P` of the grammar
derives it from them, its span is the one that they cover, and its direct parts stand in order among
them (`Expr.Laid`), each in its own place again.

The lemmas of this module put placed trees together in the ways in which the parser does.  They need
the tokens to be in order, since the span of a node is a merge of the spans of two of its parts.
-/

namespace DataExpr

namespace Expr

open Grammar (Whole Sequence Operand)
open Token (InOrder cover)

/-! ### Parts -/

/-- The trees inside a node, in the order in which they are written. -/
def Kind.children : Kind → List Expr
  | .alt l r | .seq l r => [l, r]
  | .lookahead e | .cut e => [e]
  | .object es => es.map ObjectEntry.value
  | .array es => es.map ArrayEntry.value
  | _ => []

/-- The trees right below a tree. -/
def children (e : Expr) : List Expr := e.kind.children

/-- Whether the trees stand among the tokens, one after the other and each in its place. -/
inductive Laid : List Token → List Expr → Prop where
  | nil (ts : List Token) : Laid ts []
  | cons {ts : List Token} {e : Expr} (pre : List Token) {post : List Token} {es : List Expr}
      (hderived : Whole (ts.map Token.kind) e) (hspan : e.span = cover ts)
      (hparts : Laid ts e.children) (hrest : Laid post es) : Laid (pre ++ (ts ++ post)) (e :: es)

/-- Whether the tree is in its place over the tokens. -/
structure Placed (P : List TokenKind → Expr → Prop) (ts : List Token) (e : Expr) : Prop where
  derived : P (ts.map Token.kind) e
  span : e.span = cover ts
  parts : Laid ts e.children

variable {ts ts' : List Token} {es es' : List Expr} {e l r : Expr} {t : Token}

/-- Tokens may be added before the trees. -/
theorem Laid.after (h : Laid ts es) (pre : List Token) : Laid (pre ++ ts) es := by
  cases h with
  | nil => exact .nil _
  | cons pre' hderived hspan hparts hrest =>
    rw [← List.append_assoc]
    exact .cons _ hderived hspan hparts hrest

/-- The trees of two lists of tokens. -/
theorem Laid.append (h : Laid ts es) (h' : Laid ts' es') : Laid (ts ++ ts') (es ++ es') := by
  induction h with
  | nil ts => exact h'.after ts
  | cons pre hderived hspan hparts _ _ ih =>
    rw [List.append_assoc, List.append_assoc]
    exact .cons pre hderived hspan hparts ih

/-- Tokens may be added after the trees. -/
theorem Laid.before (h : Laid ts es) (post : List Token) : Laid (ts ++ post) es := by
  have hall := h.append (.nil post)
  rwa [List.append_nil] at hall

namespace Placed

variable {P Q : List TokenKind → Expr → Prop}

theorem mono (h : Placed P ts e) (hPQ : P (ts.map Token.kind) e → Q (ts.map Token.kind) e) :
    Placed Q ts e :=
  ⟨hPQ h.derived, h.span, h.parts⟩

theorem whole (h : Placed Sequence ts e) : Placed Whole ts e := h.mono .sequence

theorem sequence (h : Placed Operand ts e) : Placed Sequence ts e := h.mono .operand

theorem laid (h : Placed Whole ts e) : Laid ts [e] := by
  have hlaid := Laid.cons [] h.derived h.span h.parts (.nil [])
  rwa [List.nil_append, List.append_nil] at hlaid

theorem ne_nil (h : Placed Whole ts e) : ts ≠ [] := by
  rintro rfl
  obtain ⟨k, ks, hks, _⟩ := h.derived.begins
  cases hks

/-! ### Trees put together -/

theorem alt (horder : InOrder (ts ++ (t :: ts'))) (hl : Placed Whole ts l) (ht : t.kind = .pipe)
    (hr : Placed Sequence ts' r) :
    Placed Whole (ts ++ t :: ts') ⟨.alt l r, l.span.merge r.span⟩ where
  derived := by
    rw [List.map_append, List.map_cons, ht]
    exact .alt hl.derived hr.derived _
  span := by
    rw [span_mk, hl.span, hr.span]
    exact InOrder.merge_cover (b := [t]) horder hl.ne_nil hr.whole.ne_nil
  parts := hl.laid.append (hr.whole.laid.after [t])

theorem seq (horder : InOrder (ts ++ ts')) (hl : Placed Sequence ts l) (hr : Placed Operand ts' r) :
    Placed Sequence (ts ++ ts') ⟨.seq l r, l.span.merge r.span⟩ where
  derived := by
    rw [List.map_append]
    exact .seq hl.derived hr.derived _
  span := by
    rw [span_mk, hl.span, hr.span]
    exact InOrder.merge_cover (b := []) horder hl.whole.ne_nil hr.sequence.whole.ne_nil
  parts := hl.whole.laid.append hr.sequence.whole.laid

/-- A postfix operator applies to the sequence before it. -/
theorem mark {node : Expr → Kind} (horder : InOrder (ts ++ [t])) (he : Placed Sequence ts e)
    (hnode : (node e).children = [e])
    (hderived : ∀ s, Sequence (ts.map Token.kind ++ [t.kind]) ⟨node e, s⟩) :
    Placed Sequence (ts ++ [t]) ⟨node e, e.span.merge t.span⟩ where
  derived := by
    rw [List.map_append]
    exact hderived _
  span := by
    rw [span_mk, he.span]
    exact InOrder.merge_cover (b := []) (c := [t]) horder he.whole.ne_nil (List.cons_ne_nil t [])
  parts := by
    show Laid _ (node e).children
    rw [hnode]
    exact he.whole.laid.before [t]

/-- A tree of one token. -/
theorem atom {kind : Kind} (hderived : Operand [t.kind] ⟨kind, t.span⟩)
    (hkind : kind.children = []) : Placed Operand [t] ⟨kind, t.span⟩ where
  derived := hderived
  span := rfl
  parts := by
    show Laid _ kind.children
    rw [hkind]
    exact .nil _

/-- A tree from its first token to its last, with what stands between them. -/
theorem closed {kind : Kind} {first last : Token} (horder : InOrder (first :: ts ++ [last]))
    (hderived : Operand ((first :: ts ++ [last]).map Token.kind)
      ⟨kind, first.span.merge last.span⟩)
    (hparts : Laid (first :: ts) kind.children) :
    Placed Operand (first :: ts ++ [last]) ⟨kind, first.span.merge last.span⟩ where
  derived := hderived
  span := InOrder.merge_cover (a := [first]) (c := [last]) horder (List.cons_ne_nil _ _)
    (List.cons_ne_nil _ _)
  parts := hparts.before [last]

end Placed

/-! ### Places of parts -/

/-- Each of the trees is in its place over some of the tokens. -/
theorem Laid.exists_placed (h : Laid ts es) (he : e ∈ es) :
    ∃ pre mid post, ts = pre ++ (mid ++ post) ∧ Placed Whole mid e := by
  induction h with
  | nil ts => cases he
  | @cons mid e' pre post es hderived hspan hparts _ _ ih =>
    rcases List.mem_cons.1 he with rfl | hrest
    · exact ⟨pre, mid, post, rfl, hderived, hspan, hparts⟩
    · obtain ⟨pre', mid', post', rfl, hplaced⟩ := ih hrest
      refine ⟨pre ++ (mid ++ pre'), mid', post', ?_, hplaced⟩
      simp only [List.append_assoc]

/-- The trees stand inside the span of the tokens. -/
theorem Laid.inside (h : Laid ts es) (horder : InOrder ts) (he : e ∈ es) :
    (cover ts).start ≤ e.span.start ∧ e.span.stop ≤ (cover ts).stop := by
  obtain ⟨pre, mid, post, rfl, hplaced⟩ := h.exists_placed he
  rw [hplaced.span]
  exact horder.cover_inside hplaced.ne_nil

/-- The trees stand one after the other. -/
theorem Laid.pairwise (h : Laid ts es) (horder : InOrder ts) :
    es.Pairwise fun e e' => e.span.stop ≤ e'.span.start := by
  induction h with
  | nil ts => exact .nil
  | @cons mid e pre post es hderived hspan hparts hrest _ ih =>
    have hrestOrder : InOrder (mid ++ post) := horder.of_append_right
    have hpostOrder : InOrder post := hrestOrder.of_append_right
    refine List.pairwise_cons.2 ⟨fun e' he' => ?_, ih hpostOrder⟩
    have hmid : mid ≠ [] := Placed.ne_nil ⟨hderived, hspan, hparts⟩
    have hpost : post ≠ [] := by
      obtain ⟨pre', mid', post', rfl, hplaced⟩ := hrest.exists_placed he'
      exact List.append_ne_nil_of_right_ne_nil _ (List.append_ne_nil_of_left_ne_nil hplaced.ne_nil _)
    rw [hspan]
    exact (hrestOrder.cover_apart hmid hpost).trans (hrest.inside hpostOrder he').1

end Expr

end DataExpr
