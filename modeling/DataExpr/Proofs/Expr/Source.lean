import DataExpr.Proofs.Expr.Grammar.Parse
import DataExpr.Proofs.Token.Local

/-!
# Texts of expressions

A text is read as an expression if and only if its tokens derive one.  Then none of its tokens is an
error (`Grammar.Whole.isProper`), so the text spells the tokens: they are found in it wherever it
stands before a separator (`Expr.spells_of_read`).
-/

namespace DataExpr

namespace Grammar

theorem Key.isProper {k : TokenKind} {l : Literal} (h : Key k l) : k.isProper = true := by
  cases h <;> rfl

theorem FieldKey.isProper {k : TokenKind} {l : Literal} (h : FieldKey k l) :
    k.isProper = true := by
  cases h with
  | key h => exact h.isProper
  | int n => rfl

theorem Bound.isProper {ks : List TokenKind} {l : Option Literal} (h : Bound ks l) :
    ks.all TokenKind.isProper = true := by
  cases h <;> rfl

theorem all_maybe {k : TokenKind} (hk : k.isProper = true) (present : Bool) :
    (maybe k present).all TokenKind.isProper = true := by
  cases present with
  | false => rfl
  | true => rw [maybe, if_pos rfl, List.all_cons, hk]; rfl

theorem maybe_question (present : Bool) :
    (maybe .question present).all TokenKind.isProper = true := all_maybe rfl present

theorem maybe_comma (present : Bool) :
    (maybe .comma present).all TokenKind.isProper = true := all_maybe rfl present

mutual

/-- The tokens of an expression are proper. -/
theorem Whole.isProper : ∀ {ks : List TokenKind} {e : Expr}, Whole ks e →
    ks.all TokenKind.isProper = true
  | _, _, .sequence h => h.isProper
  | _, _, .alt hl hr _ => by
    rw [List.all_append, hl.isProper]
    exact hr.isProper

theorem Sequence.isProper : ∀ {ks : List TokenKind} {e : Expr}, Sequence ks e →
    ks.all TokenKind.isProper = true
  | _, _, .operand h => h.isProper
  | _, _, .seq hl hr _ => by
    rw [List.all_append, hl.isProper]
    exact hr.isProper
  | _, _, .cut h _ | _, _, .lookahead h _ => by
    rw [List.all_append, h.isProper]
    rfl

theorem Operand.isProper : ∀ {ks : List TokenKind} {e : Expr}, Operand ks e →
    ks.all TokenKind.isProper = true
  | _, _, .group h _ => by
    rw [List.all_cons, List.all_append, h.isProper]
    rfl
  | _, _, .object h comma _ => by
    rw [List.all_cons, List.all_append, List.all_append, h.isProper, maybe_comma]
    rfl
  | _, _, .array h comma _ => by
    rw [List.all_cons, List.all_append, List.all_append, h.isProper, maybe_comma]
    rfl
  | _, _, .key h optional _ => by
    rw [List.all_cons, List.all_cons, h.isProper, maybe_question]
    rfl
  | _, _, .index n optional _ => by
    rw [List.all_cons, List.all_cons, maybe_question]
    rfl
  | _, _, .slice hstart hstop _ => by
    rw [List.all_cons, List.all_cons, List.all_append, List.all_cons, List.all_append,
      hstart.isProper, hstop.isProper]
    rfl
  | _, _, .emptyObject _ | _, _, .emptyArray _ | _, _, .spread _ | _, _, .descent _
  | _, _, .self _ | _, _, .str _ _ | _, _, .int _ _ | _, _, .placeholder _ _ => rfl

theorem Field.isProper : ∀ {ks : List TokenKind} {x : Expr.ObjectEntry}, Field ks x →
    ks.all TokenKind.isProper = true
  | _, _, .field hk optional h => by
    rw [List.all_cons, List.all_append, List.all_cons, hk.isProper, maybe_question, h.isProper]
    rfl
  | _, _, .rest h => by
    rw [List.all_cons, h.isProper]
    rfl

theorem Fields.isProper : ∀ {ks : List TokenKind} {es : List Expr.ObjectEntry}, Fields ks es →
    ks.all TokenKind.isProper = true
  | _, _, .one h => h.isProper
  | _, _, .more hes h => by
    rw [List.all_append, hes.isProper, List.all_cons, h.isProper]
    rfl

theorem Element.isProper : ∀ {ks : List TokenKind} {x : Expr.ArrayEntry}, Element ks x →
    ks.all TokenKind.isProper = true
  | _, _, .item h => h.isProper
  | _, _, .rest h => by
    rw [List.all_cons, h.isProper]
    rfl

theorem Elements.isProper : ∀ {ks : List TokenKind} {es : List Expr.ArrayEntry}, Elements ks es →
    ks.all TokenKind.isProper = true
  | _, _, .one h => h.isProper
  | _, _, .more hes h => by
    rw [List.all_append, hes.isProper, List.all_cons, h.isProper]
    rfl

end

/-- No token of an expression is an error. -/
theorem Whole.error_notMem {ks : List TokenKind} {e : Expr} (h : Whole ks e) : .error ∉ ks :=
  fun hmem => TokenKind.ne_error_of_isProper (List.all_eq_true.1 h.isProper _ hmem) rfl

end Grammar

namespace Expr

variable {source : String} {ks : List TokenKind} {e : Expr}

/-- The tokens of a text that is read derive the tree. -/
theorem whole_of_read (h : read source = .ok e) :
    ∃ ks, Token.kinds source.toList = ks ++ [.eof] ∧ Grammar.Whole ks e := by
  obtain ⟨ts, stop, hscan, hts, hstop⟩ := Token.exists_scan source
  rw [read, hscan] at h
  refine ⟨ts.map Token.kind, ?_, whole_of_parse hts h⟩
  rw [← Token.map_kind_scan, hscan, List.map_append, List.map_singleton, hstop]

/-- A text whose tokens derive a tree is read as a tree of its shape. -/
theorem read_of_whole (hks : Token.kinds source.toList = ks ++ [.eof])
    (h : Grammar.Whole ks e) : ∃ e', read source = .ok e' ∧ e.sameShape e' = true :=
  parse_of_whole h hks

/-- A text that is read spells the tokens of its expression. -/
theorem spells_of_read (h : read source = .ok e) :
    ∃ ks, Token.Spells source ks ∧ Grammar.Whole ks e := by
  obtain ⟨ks, hks, hwhole⟩ := whole_of_read h
  exact ⟨ks, Token.spells_of_kinds hks hwhole.error_notMem, hwhole⟩

/-- A text that spells tokens of an expression is read as it. -/
theorem read_of_spells (hs : Token.Spells source ks) (h : Grammar.Whole ks e) :
    ∃ e', read source = .ok e' ∧ e.sameShape e' = true := by
  have hks := hs [] Token.apart_nil
  rw [List.append_nil, Token.kinds_nil] at hks
  exact read_of_whole hks h

end Expr

end DataExpr
