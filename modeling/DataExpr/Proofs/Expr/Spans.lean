import DataExpr.Proofs.Expr.Placement.States
import DataExpr.Proofs.Expr.Source
import Mathlib.Logic.Relation

/-!
# Spans are faithful

Every tree inside a tree that was read says correctly where it stands in the text
(`Expr.Faithful`).  Its span is a piece of the text that is not empty, holds the spans of its direct
parts in order and without overlaps, and is read by itself as a tree of the same shape
(`Expr.faithful_of_read`).

That the piece is read again rests on two facts.  The parser has the tree in its place over its tokens
(`Expr.placed_of_parse`), so these tokens alone derive it.  And they can be cut out of the text
(`Token.exists_text`), since no token changes when the text before and after them is left out.
-/

namespace DataExpr

namespace Expr

/-! ### Shapes -/

mutual

/-- It does not matter which of two trees is compared with the other. -/
theorem sameShape_comm : ∀ e e' : Expr, e.sameShape e' = e'.sameShape e
  | ⟨k, s⟩, ⟨k', s'⟩ => by
    rw [sameShape_mk, sameShape_mk]
    -- Nodes of different sorts do not look alike.
    cases k <;> cases k' <;> simp only [Kind.agree]
    case alt.alt l r l' r' => exact congrArg₂ and (sameShape_comm l l') (sameShape_comm r r')
    case seq.seq l r l' r' => exact congrArg₂ and (sameShape_comm l l') (sameShape_comm r r')
    case lookahead.lookahead e e' => exact sameShape_comm e e'
    case cut.cut e e' => exact sameShape_comm e e'
    case object.object es es' => exact agreeObject_comm es es'
    case array.array es es' => exact agreeArray_comm es es'
    case key.key k optional k' optional' =>
      exact congrArg₂ and BEq.comm BEq.comm
    case index.index i optional i' optional' =>
      exact congrArg₂ and BEq.comm BEq.comm
    case slice.slice a b a' b' =>
      exact congrArg₂ and BEq.comm BEq.comm
    case literal.literal l l' => exact BEq.comm

theorem agreeObject_comm : ∀ es es' : List ObjectEntry,
    agreeObject (fun _ _ => true) es es' = agreeObject (fun _ _ => true) es' es
  | [], [] | [], _ :: _ | _ :: _, [] | .field .. :: _, .rest _ :: _ | .rest _ :: _, .field .. :: _ => by
    simp only [agreeObject]
  | .field k optional e :: es, .field k' optional' e' :: es' => by
    have he : agree _ e e' = agree _ e' e := sameShape_comm e e'
    rw [agreeObject, agreeObject, he, agreeObject_comm es es', BEq.comm (a := k),
      BEq.comm (a := optional)]
  | .rest e :: es, .rest e' :: es' => by
    have he : agree _ e e' = agree _ e' e := sameShape_comm e e'
    rw [agreeObject, agreeObject, he, agreeObject_comm es es']

theorem agreeArray_comm : ∀ es es' : List ArrayEntry,
    agreeArray (fun _ _ => true) es es' = agreeArray (fun _ _ => true) es' es
  | [], [] | [], _ :: _ | _ :: _, [] | .item _ :: _, .rest _ :: _ | .rest _ :: _, .item _ :: _ => by
    simp only [agreeArray]
  | .item e :: es, .item e' :: es' | .rest e :: es, .rest e' :: es' => by
    have he : agree _ e e' = agree _ e' e := sameShape_comm e e'
    rw [agreeArray, agreeArray, he, agreeArray_comm es es']

end

/-! ### Parts at any depth -/

/-- Whether `n` is the tree itself or a tree inside it. -/
def IsPart (n e : Expr) : Prop := Relation.ReflTransGen (fun e c => c ∈ e.children) e n

/-- What the span of a tree says about the text that the tree was read from. -/
structure Faithful (source : String) (n : Expr) : Prop where
  /-- The span is a piece of the text that is read as the tree. -/
  text : ∃ before text after : List Char, source.toList = before ++ text ++ after ∧
    n.span = ⟨Text.utf8Length before, Text.utf8Length (before ++ text)⟩ ∧
    ∃ n', read (String.ofList text) = .ok n' ∧ n'.sameShape n = true
  nonempty : n.span.start < n.span.stop
  within : n.span.stop ≤ Text.utf8Length source.toList
  /-- The direct parts are inside the span. -/
  inside : ∀ c ∈ n.children, n.span.start ≤ c.span.start ∧ c.span.stop ≤ n.span.stop
  /-- Each direct part ends before the next begins. -/
  apart : n.children.Pairwise fun c c' => c.span.stop ≤ c'.span.start

variable {source : String} {e n : Expr} {ts : List Token}

/-- Every part of a placed tree is in its place over some of the tokens. -/
theorem Placed.of_isPart (h : Placed Grammar.Whole ts e) (hn : IsPart n e) :
    ∃ pre mid post, ts = pre ++ (mid ++ post) ∧ Placed Grammar.Whole mid n := by
  induction hn with
  | refl => exact ⟨[], ts, [], by simp, h⟩
  | tail _ hchild ih =>
    obtain ⟨pre, mid, post, rfl, hplaced⟩ := ih
    obtain ⟨pre', mid', post', rfl, hplaced'⟩ := hplaced.parts.exists_placed hchild
    exact ⟨pre ++ pre', mid', post' ++ post, by simp, hplaced'⟩

/-- The tokens of a text and the tree over them. -/
theorem placed_of_read (h : read source = .ok e) :
    ∃ ts stop, Token.scan source = ts ++ [stop] ∧ Placed Grammar.Whole ts e := by
  obtain ⟨ts, stop, hscan, hts, _⟩ := Token.exists_scan source
  have horder : Token.InOrder (ts ++ [stop]) := hscan ▸ Token.inOrder_scan source
  rw [read, hscan] at h
  exact ⟨ts, stop, hscan, placed_of_parse hts horder h⟩

/-- The text under a placed tree is read as a tree of its shape. -/
theorem Placed.exists_text {pre mid post : List Token} (h : Placed Grammar.Whole mid n)
    (hscan : Token.scan source = pre ++ (mid ++ post))
    (hlimit : Text.utf8Length source.toList ≤ Span.limit) :
    ∃ before text after : List Char, source.toList = before ++ text ++ after ∧ text ≠ [] ∧
      n.span = ⟨Text.utf8Length before, Text.utf8Length (before ++ text)⟩ ∧
      ∃ n', read (String.ofList text) = .ok n' ∧ n'.sameShape n = true := by
  have hproper : ∀ t ∈ mid, t.kind.isProper = true := fun t ht =>
    List.all_eq_true.1 h.derived.isProper t.kind (List.mem_map_of_mem ht)
  obtain ⟨before, text, after, hsource, hkinds, hcover⟩ :=
    Token.exists_text hscan h.ne_nil hproper hlimit
  have htext : text ≠ [] := by
    rintro rfl
    rw [Token.kinds_nil] at hkinds
    exact h.ne_nil (List.map_eq_nil_iff.1 (List.self_eq_append_left.1 hkinds))
  have hcut : Token.kinds (String.ofList text).toList = mid.map Token.kind ++ [.eof] := by
    rw [String.toList_ofList, hkinds]
  obtain ⟨n', hread, hsame⟩ := read_of_whole hcut h.derived
  rw [sameShape_comm] at hsame
  exact ⟨before, text, after, hsource, htext, h.span.trans hcover, n', hread, hsame⟩

/-- The span of a tree that was read, and of every tree inside it, is faithful to the text. -/
theorem faithful_of_read (source : String) (e n : Expr)
    (hlimit : Text.utf8Length source.toList ≤ Span.limit) (hread : read source = .ok e)
    (hn : IsPart n e) : Faithful source n := by
  obtain ⟨ts, stop, hscan, hplaced⟩ := placed_of_read hread
  obtain ⟨pre, mid, post, rfl, hpart⟩ := hplaced.of_isPart hn
  have horder : Token.InOrder (pre ++ (mid ++ post) ++ [stop]) := hscan ▸ Token.inOrder_scan source
  have hmid : Token.InOrder mid := horder.of_append_left.of_append_right.of_append_left
  rw [List.append_assoc, List.append_assoc] at hscan
  obtain ⟨before, text, after, hsource, htext, hspan, hshape⟩ := hpart.exists_text hscan hlimit
  -- Every character takes a byte.
  have hlength : 0 < Text.utf8Length text :=
    (List.length_pos_iff.2 htext).trans_le (Text.length_le_utf8Length text)
  refine ⟨⟨before, text, after, hsource, hspan, hshape⟩, ?_, ?_, ?_, hpart.parts.pairwise hmid⟩
  · rw [hspan, Text.utf8Length_append]
    exact Nat.lt_add_of_pos_right hlength
  · rw [hspan, hsource, Text.utf8Length_append _ after]
    exact Nat.le_add_right _ _
  · intro c hc
    rw [hpart.span]
    exact hpart.parts.inside hmid hc

/-- The tree of `(_ | .a)`, which has the span of the parentheses. -/
def choice : Expr := ⟨.alt ⟨.self, ⟨1, 2⟩⟩ ⟨.key (.ident "a") false, ⟨5, 7⟩⟩, ⟨0, 8⟩⟩

/-- The tree of `(_ | .a) !`. -/
def firstChoice : Expr := ⟨.cut choice, ⟨0, 10⟩⟩

/-- The span of the alternatives of `(_ | .a) !` is that of `(_ | .a)`. -/
theorem faithful_of_read_choice :
    Text.utf8Length "(_ | .a) !".toList ≤ Span.limit ∧ read "(_ | .a) !" = .ok firstChoice ∧
      IsPart choice firstChoice ∧ Faithful "(_ | .a) !" choice := by
  have hlimit : Text.utf8Length "(_ | .a) !".toList ≤ Span.limit := by decide
  have hscan : Token.scan "(_ | .a) !" =
      [⟨.leftParen, ⟨0, 1⟩⟩, ⟨.underscore, ⟨1, 2⟩⟩, ⟨.pipe, ⟨3, 4⟩⟩, ⟨.dots 1, ⟨5, 6⟩⟩,
        ⟨.ident "a", ⟨6, 7⟩⟩, ⟨.rightParen, ⟨7, 8⟩⟩, ⟨.bang, ⟨9, 10⟩⟩, ⟨.eof, ⟨10, 10⟩⟩] := by
    decide +kernel
  have hread : read "(_ | .a) !" = .ok firstChoice := by
    rw [read, hscan]
    rfl
  have hchildren : firstChoice.children = [choice] := rfl
  have hpart : IsPart choice firstChoice := by
    refine .single ?_
    rw [hchildren]
    exact List.mem_singleton_self choice
  exact ⟨hlimit, hread, hpart, faithful_of_read _ _ _ hlimit hread hpart⟩

end Expr

end DataExpr
