import DataExpr.Proofs.Expr.Source
import DataExpr.Proofs.Pattern.Shape

/-!
# Texts of patterns are put together

A text that denotes a pattern may be put in parentheses and combined with others by the operators of
the language: the text as a whole denotes the combination of the patterns
(`Pattern.denotes_combinations`).  Nothing of a text leaks out of its parentheses.  Its tokens are the
same there, since a separator follows them (`Expr.spells_of_read`); they are one operand of the
grammar; and the branches or steps that compiling joins with those outside mean what they meant
inside (`Operand.matcher_branches`, `Operand.matcher_steps`).
-/

namespace DataExpr

open Token (Spells)

namespace Expr

/-! ### Combinations of trees -/

variable {items : List Item} {e l r : Expr} {p q : Pattern} {s : Span}

theorem operand_of_compile (h : e.compile items = .ok p) :
    ∃ o, operand items e = .ok o ∧ o.pattern = p := by
  rw [compile] at h
  cases ho : operand items e with
  | error err =>
    rw [ho] at h
    cases h
  | ok o =>
    rw [ho] at h
    exact ⟨o, rfl, Except.ok.inj h⟩

theorem compile_alt (hl : l.compile items = .ok p) (hr : r.compile items = .ok q) :
    ∃ p', compile ⟨.alt l r, s⟩ items = .ok p' ∧ p'.matcher = (Pattern.alt [p, q]).matcher := by
  obtain ⟨ol, hol, rfl⟩ := operand_of_compile hl
  obtain ⟨or, hor, rfl⟩ := operand_of_compile hr
  refine ⟨_, ?_, Operand.matcher_branches ol or⟩
  rw [compile, operand, hol, hor]
  rfl

theorem compile_seq (hl : l.compile items = .ok p) (hr : r.compile items = .ok q) :
    ∃ p', compile ⟨.seq l r, s⟩ items = .ok p' ∧ p'.matcher = (Pattern.seq [p, q]).matcher := by
  obtain ⟨ol, hol, rfl⟩ := operand_of_compile hl
  obtain ⟨or, hor, rfl⟩ := operand_of_compile hr
  refine ⟨_, ?_, Operand.matcher_steps ol or⟩
  rw [compile, operand, hol, hor]
  rfl

theorem compile_lookahead (h : e.compile items = .ok p) :
    compile ⟨.lookahead e, s⟩ items = .ok (.lookahead p) := by
  obtain ⟨o, ho, rfl⟩ := operand_of_compile h
  rw [compile, operand, ho]
  rfl

theorem compile_cut (h : e.compile items = .ok p) :
    compile ⟨.cut e, s⟩ items = .ok (.limit p 1) := by
  obtain ⟨o, ho, rfl⟩ := operand_of_compile h
  rw [compile, operand, ho]
  rfl

end Expr

namespace Pattern

/-! ### Texts and patterns -/

variable {items : List Item} {source a : String} {ks : List TokenKind} {e : Expr} {p q : Pattern}

theorem exists_of_ofSource (h : ofSource source items = .ok p) :
    ∃ e, Expr.read source = .ok e ∧ e.compile items = .ok p := by
  unfold ofSource at h
  split at h
  · cases h
  · rename_i e he
    split at h
    · cases h
    · rename_i p' hp'
      cases h
      exact ⟨e, he, hp'⟩

/-- A text denotes the pattern of every tree that its tokens derive. -/
theorem ofSource_of_spells (hs : Spells source ks) (h : Grammar.Whole ks e)
    (hp : e.compile items = .ok p) : ofSource source items = .ok p := by
  obtain ⟨e', hread, hsame⟩ := Expr.read_of_spells hs h
  have hcompile : e'.compile items = .ok p := Expr.compile_of_sameShape items hsame hp
  simp only [ofSource, hread, hcompile]

/-- Whether the text denotes a pattern with the matches of the given one. -/
def Denotes (items : List Item) (source : String) (q : Pattern) : Prop :=
  ∃ p, ofSource source items = .ok p ∧ ∀ focus, p.matchesIn focus = q.matchesIn focus

/-- Whether the text is a single operand with the pattern. -/
def IsOperand (items : List Item) (source : String) (p : Pattern) : Prop :=
  ∃ ks e, Spells source ks ∧ Grammar.Operand ks e ∧ e.compile items = .ok p

/-- A text in parentheses is an operand with the pattern of the text. -/
theorem isOperand_parentheses (h : ofSource source items = .ok p) :
    IsOperand items ("(" ++ source ++ ")") p := by
  obtain ⟨⟨kind, span⟩, hread, hp⟩ := exists_of_ofSource h
  obtain ⟨ks, hspells, hwhole⟩ := Expr.spells_of_read hread
  have hopening : Token.Opens "(" [.leftParen] := Token.opens_punctuation rfl rfl
  have hclosing : Token.Separates ")" [.rightParen] := Token.separates_punctuation rfl rfl rfl
  exact ⟨_, _, (hspells.after hopening).then hclosing, .group hwhole span, hp⟩

/-! ### Combinations of texts -/

section Operators

variable {a b : String}

theorem IsOperand.alt (ha : IsOperand items a p) (hb : IsOperand items b q) :
    Denotes items (a ++ " | " ++ b) (.alt [p, q]) := by
  obtain ⟨ka, l, hka, hl, hlp⟩ := ha
  obtain ⟨kb, r, hkb, hr, hrq⟩ := hb
  have hpipe : Token.Separates " | " [.pipe] := Token.separates_punctuation rfl rfl rfl
  have hwhole : Grammar.Whole (ka ++ [.pipe] ++ kb) ⟨.alt l r, .dummy⟩ := by
    rw [List.append_assoc]
    exact .alt (.sequence (.operand hl)) (.operand hr) .dummy
  obtain ⟨p', hp', hmatcher⟩ := Expr.compile_alt (s := .dummy) hlp hrq
  exact ⟨p', ofSource_of_spells (hka.joined hpipe hkb) hwhole hp', congrFun hmatcher⟩

theorem IsOperand.seq (ha : IsOperand items a p) (hb : IsOperand items b q) :
    Denotes items (a ++ " " ++ b) (.seq [p, q]) := by
  obtain ⟨ka, l, hka, hl, hlp⟩ := ha
  obtain ⟨kb, r, hkb, hr, hrq⟩ := hb
  have hspace : Token.Separates " " [] := Token.separates_punctuation rfl rfl rfl
  have hwhole : Grammar.Whole (ka ++ [] ++ kb) ⟨.seq l r, .dummy⟩ := by
    rw [List.append_nil]
    exact .sequence (.seq (.operand hl) hr .dummy)
  obtain ⟨p', hp', hmatcher⟩ := Expr.compile_seq (s := .dummy) hlp hrq
  exact ⟨p', ofSource_of_spells (hka.joined hspace hkb) hwhole hp', congrFun hmatcher⟩

theorem IsOperand.lookahead (ha : IsOperand items a p) :
    Denotes items (a ++ " &") (.lookahead p) := by
  obtain ⟨ka, l, hka, hl, hlp⟩ := ha
  have hamp : Token.Separates " &" [.amp] := Token.separates_punctuation rfl rfl rfl
  have hwhole : Grammar.Whole (ka ++ [.amp]) ⟨.lookahead l, .dummy⟩ :=
    .sequence (.lookahead (.operand hl) .dummy)
  exact ⟨_, ofSource_of_spells (hka.then hamp) hwhole (Expr.compile_lookahead hlp), fun _ => rfl⟩

theorem IsOperand.cut (ha : IsOperand items a p) : Denotes items (a ++ " !") (.limit p 1) := by
  obtain ⟨ka, l, hka, hl, hlp⟩ := ha
  have hbang : Token.Separates " !" [.bang] := Token.separates_punctuation rfl rfl rfl
  have hwhole : Grammar.Whole (ka ++ [.bang]) ⟨.cut l, .dummy⟩ :=
    .sequence (.cut (.operand hl) .dummy)
  exact ⟨_, ofSource_of_spells (hka.then hbang) hwhole (Expr.compile_cut hlp), fun _ => rfl⟩

end Operators

/-- Texts in parentheses with an operator between or after them denote the combination of what they
denote. -/
theorem denotes_combinations (a b : String) (items : List Item) (p q : Pattern)
    (ha : ofSource a items = .ok p) (hb : ofSource b items = .ok q) :
    Denotes items ("(" ++ a ++ ") | (" ++ b ++ ")") (.alt [p, q]) ∧
    Denotes items ("(" ++ a ++ ") (" ++ b ++ ")") (.seq [p, q]) ∧
    Denotes items ("(" ++ a ++ ") &") (.lookahead p) ∧
    Denotes items ("(" ++ a ++ ") !") (.limit p 1) := by
  have ha := isOperand_parentheses ha
  have hb := isOperand_parentheses hb
  -- The parentheses belong to the operands.
  have hor : ") | (" = ")" ++ (" | " ++ "(") := rfl
  have hthen : ") (" = ")" ++ (" " ++ "(") := rfl
  have hamp : ") &" = ")" ++ " &" := rfl
  have hbang : ") !" = ")" ++ " !" := rfl
  refine ⟨?_, ?_, ?_, ?_⟩
  · have halt := ha.alt hb
    rw [hor]
    simpa only [String.append_assoc] using halt
  · have hseq := ha.seq hb
    rw [hthen]
    simpa only [String.append_assoc] using hseq
  · rw [hamp, ← String.append_assoc]
    exact ha.lookahead
  · rw [hbang, ← String.append_assoc]
    exact ha.cut

/-- The text `* | **` has two branches of its own, and `** !` ends with an operator; in parentheses
both are single operands. -/
theorem denotes_combinations_stars :
    ofSource "* | **" [] = .ok (.alt [.spread, .descend 1]) ∧
    ofSource "** !" [] = .ok (.limit (.descend 1) 1) ∧
    Denotes [] "(* | **) | (** !)" (.alt [.alt [.spread, .descend 1], .limit (.descend 1) 1]) ∧
    Denotes [] "(* | **) (** !)" (.seq [.alt [.spread, .descend 1], .limit (.descend 1) 1]) ∧
    Denotes [] "(* | **) &" (.lookahead (.alt [.spread, .descend 1])) ∧
    Denotes [] "(* | **) !" (.limit (.alt [.spread, .descend 1]) 1) := by
  have hpipe : Token.Separates " | " [.pipe] := Token.separates_punctuation rfl rfl rfl
  have hbang : Token.Separates " !" [.bang] := Token.separates_punctuation rfl rfl rfl
  have hspread : Grammar.Sequence [.stars 1] ⟨.spread, .dummy⟩ := .operand (.spread _)
  have hdescent : Grammar.Sequence [.stars 2] ⟨.descent, .dummy⟩ := .operand (.descent _)
  have ha : ofSource "* | **" [] = .ok (.alt [.spread, .descend 1]) :=
    ofSource_of_spells (Token.spells_star.joined hpipe Token.spells_stars)
      (.alt (.sequence hspread) hdescent .dummy) rfl
  have hb : ofSource "** !" [] = .ok (.limit (.descend 1) 1) :=
    ofSource_of_spells (Token.spells_stars.then hbang) (.sequence (.cut hdescent .dummy)) rfl
  exact ⟨ha, hb, denotes_combinations "* | **" "** !" [] _ _ ha hb⟩

end Pattern

end DataExpr
