import DataExpr.Proofs.Expr.Grammar.Reads
import DataExpr.Proofs.Expr.Grammar.States

/-!
# The parser accepts its grammar

Tokens up to the end mark are parsed if and only if the grammar derives them, and the tree has the
shape of every tree that they derive (`Expr.parse_grammar`).
-/

namespace DataExpr

namespace Expr

variable {ts : List Token} {stop : Token} {e : Expr}

/-- What is parsed is a run of the parser over all tokens. -/
theorem run_of_parse (h : parse ts = .ok e) : Parser.run (.operand .empty []) ts = .ok e := by
  unfold parse at h
  split at h
  · cases h
  · split at h
    · cases h
    · exact h

/-- What is parsed derives the tree, up to the first end mark. -/
theorem whole_of_parse (hts : ∀ t ∈ ts, t.kind ≠ .eof) (h : parse (ts ++ [stop]) = .ok e) :
    Grammar.Whole (ts.map Token.kind) e := by
  have hempty : Parser.Before .empty [] ([] ++ []) := .mk .nil Parser.read_empty
  have hstart : (Parser.State.operand .empty []).Read [] := .operand hempty
  obtain ⟨ks, hwhole, hprefix⟩ := Parser.whole_of_run hstart (run_of_parse h)
  rw [List.nil_append, List.map_append] at hprefix
  have hlast : ks ++ [.eof] = ts.map Token.kind ++ [stop.kind] := by
    rcases List.prefix_concat_iff.1 hprefix with heq | hshorter
    · exact heq
    · -- No end mark comes before the last token.
      have heof : TokenKind.eof ∈ ts.map Token.kind :=
        hshorter.subset (List.mem_append_right _ List.mem_cons_self)
      obtain ⟨t, ht, hkind⟩ := List.mem_map.1 heof
      exact absurd hkind (hts t ht)
  rw [← (List.append_inj' hlast rfl).1]
  exact hwhole

/-- Tokens that end with their only end mark are parsed exactly if the grammar derives those before
it.  The tree is derived by them, and every tree that they derive has its shape. -/
theorem parse_grammar (ts : List Token) (stop : Token) (hts : ∀ t ∈ ts, t.kind ≠ .eof)
    (hstop : stop.kind = .eof) :
    (∀ e, parse (ts ++ [stop]) = .ok e → Grammar.Whole (ts.map Token.kind) e) ∧
    ∀ e, Grammar.Whole (ts.map Token.kind) e →
      ∃ e', parse (ts ++ [stop]) = .ok e' ∧ e.sameShape e' = true := by
  constructor
  · intro e h
    exact whole_of_parse hts h
  · intro e h
    have hkinds : (ts ++ [stop]).map Token.kind = ts.map Token.kind ++ [.eof] := by
      rw [List.map_append, List.map_singleton, hstop]
    exact parse_of_whole h hkinds

/-- The tokens of `{a?: .0 | _ !,}`. -/
def optionalField : List Token :=
  ([.leftBrace, .ident "a", .question, .colon, .dots 1, .int 0, .pipe, .underscore, .bang, .comma,
    .rightBrace] : List TokenKind).map Token.dummy

/-- The tree of `{a?: .0 | _ !,}`: the cut is inside the second alternative. -/
def optionalFieldTree : Expr :=
  ⟨.object [.field (.ident "a") true
    ⟨.alt ⟨.index (.int 0) false, .dummy⟩ ⟨.cut ⟨.self, .dummy⟩, .dummy⟩, .dummy⟩], .dummy⟩

theorem whole_optionalField :
    Grammar.Whole (optionalField.map Token.kind) optionalFieldTree := by
  have hindex : Grammar.Whole [.dots 1, .int 0] ⟨.index (.int 0) false, .dummy⟩ :=
    .sequence (.operand (.index 0 false .dummy))
  have hcut : Grammar.Sequence [.underscore, .bang] ⟨.cut ⟨.self, .dummy⟩, .dummy⟩ :=
    .cut (.operand (.self .dummy)) .dummy
  have hfield : Grammar.Field _ _ := .field (.key (.ident "a")) true (.alt hindex hcut .dummy)
  exact .sequence (.operand (.object (.one hfield) true .dummy))

/-- An object pattern with an optional field and a comma at its end is parsed as its derivation. -/
theorem parse_grammar_optionalField :
    (∀ t ∈ optionalField, t.kind ≠ .eof) ∧ (Token.dummy .eof).kind = .eof ∧
    ∃ e, parse (optionalField ++ [.dummy .eof]) = .ok e ∧ optionalFieldTree.sameShape e = true ∧
      Grammar.Whole (optionalField.map Token.kind) e := by
  have hts : ∀ t ∈ optionalField, t.kind ≠ .eof := by decide
  have hboth := parse_grammar optionalField (.dummy .eof) hts rfl
  obtain ⟨e, hparse, hsame⟩ := hboth.2 optionalFieldTree whole_optionalField
  exact ⟨hts, rfl, e, hparse, hsame, hboth.1 e hparse⟩

end Expr

end DataExpr
