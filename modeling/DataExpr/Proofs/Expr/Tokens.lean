import DataExpr.Proofs.Token.Spells

/-!
# The tokens of a printed tree

`Expr.tokens` is the list of the tokens that a tree is written with, next to `Expr.print`, which is
the text.  A scan of the text finds just these tokens (`Expr.spells_print`): no two of them run
together, and none is split.
-/

namespace DataExpr

open Token (Spells Separates Opens)

namespace Expr

/-! ### Tokens -/

/-- The tokens of an operand, in parentheses if the node binds weaker than the place needs. -/
def grouped (needed strength : Nat) (ks : List TokenKind) : List TokenKind :=
  if strength < needed then .leftParen :: (ks ++ [.rightParen]) else ks

/-- The token of what may be absent. -/
def questionTokens (optional : Bool) : List TokenKind := if optional then [.question] else []

mutual

/-- The tokens that a tree is written with. -/
def tokens : Expr → List TokenKind
  | ⟨.alt l r, _⟩ =>
    grouped 0 l.strength (tokens l) ++ [.pipe] ++ grouped 1 r.strength (tokens r)
  | ⟨.seq l r, _⟩ => grouped 1 l.strength (tokens l) ++ [] ++ grouped 2 r.strength (tokens r)
  | ⟨.lookahead e, _⟩ => grouped 1 e.strength (tokens e) ++ [.amp]
  | ⟨.cut e, _⟩ => grouped 1 e.strength (tokens e) ++ [.bang]
  | ⟨.object es, _⟩ => .leftBrace :: ([.comma].intercalate (objectTokens es) ++ [.rightBrace])
  | ⟨.array es, _⟩ => .leftBracket :: ([.comma].intercalate (arrayTokens es) ++ [.rightBracket])
  | ⟨.key k optional, _⟩ => .dots 1 :: k.token :: questionTokens optional
  | ⟨.index i optional, _⟩ => .dots 1 :: i.token :: questionTokens optional
  | ⟨.slice a b, _⟩ =>
    .dots 1 :: .leftBracket ::
      ((a.map Literal.token).toList ++ [.colon] ++ (b.map Literal.token).toList ++ [.rightBracket])
  | ⟨.spread, _⟩ => [.stars 1]
  | ⟨.descent, _⟩ => [.stars 2]
  | ⟨.self, _⟩ => [.underscore]
  | ⟨.literal l, _⟩ => [l.token]

/-- The tokens of an entry of an object pattern. -/
def objectEntryTokens : ObjectEntry → List TokenKind
  | .field k optional v => k.token :: (questionTokens optional ++ .colon :: tokens v)
  | .rest e => .dots 3 :: tokens e

/-- The tokens of each entry of an object pattern. -/
def objectTokens : List ObjectEntry → List (List TokenKind)
  | [] => []
  | x :: es => objectEntryTokens x :: objectTokens es

/-- The tokens of an entry of an array pattern. -/
def arrayEntryTokens : ArrayEntry → List TokenKind
  | .item e => tokens e
  | .rest e => .dots 3 :: tokens e

/-- The tokens of each entry of an array pattern. -/
def arrayTokens : List ArrayEntry → List (List TokenKind)
  | [] => []
  | x :: es => arrayEntryTokens x :: arrayTokens es

end

theorem objectTokens_eq_map (es : List ObjectEntry) :
    objectTokens es = es.map objectEntryTokens := by
  induction es with
  | nil => rfl
  | cons x es ih => rw [objectTokens, ih, List.map_cons]

theorem arrayTokens_eq_map (es : List ArrayEntry) : arrayTokens es = es.map arrayEntryTokens := by
  induction es with
  | nil => rfl
  | cons x es ih => rw [arrayTokens, ih, List.map_cons]

/-! ### What is printed -/

theorem separates_space : Separates " " [] :=
  Token.separates_punctuation rfl (by decide) (by decide)

theorem separates_pipe : Separates " | " [.pipe] :=
  Token.separates_punctuation rfl (by decide) (by decide)

theorem separates_comma : Separates ", " [.comma] :=
  Token.separates_punctuation rfl (by decide) (by decide)

theorem separates_colon : Separates ": " [.colon] :=
  Token.separates_punctuation rfl (by decide) (by decide)

variable {text : String} {ks : List TokenKind}

theorem spells_grouped (h : Spells text ks) (needed strength : Nat) :
    Spells (parenthesized needed strength text) (grouped needed strength ks) := by
  unfold parenthesized grouped
  split
  · exact (h.after (Token.opens_punctuation rfl (by decide))).then
      (Token.separates_punctuation rfl (by decide) (by decide))
  · exact h

theorem spells_question (h : Spells text ks) (optional : Bool) :
    Spells (text ++ questionMark optional) (ks ++ questionTokens optional) := by
  cases optional with
  | false => simpa [questionMark, questionTokens] using h
  | true => exact h.then (Token.separates_punctuation rfl (by decide) (by decide))

theorem spells_bound (bound : Option Literal) :
    Spells ((bound.map Literal.print).getD "") (bound.map Literal.token).toList := by
  cases bound with
  | none => exact Token.opens_nil.spells
  | some l => exact l.spells_print

/-- An access by a key or an index. -/
theorem spells_access (l : Literal) (optional : Bool) :
    Spells ("." ++ l.print ++ questionMark optional)
      (.dots 1 :: l.token :: questionTokens optional) :=
  spells_question (l.spells_print.dot l.head_print_ne) optional

/-- A part of a list or text. -/
theorem spells_slice (a b : Option Literal) :
    Spells (".[" ++ (a.map Literal.print).getD "" ++ ":" ++ (b.map Literal.print).getD "" ++ "]")
      (.dots 1 :: .leftBracket ::
        ((a.map Literal.token).toList ++ [.colon] ++ (b.map Literal.token).toList ++
          [.rightBracket])) := by
  have hopen : Opens ".[" [.dots 1, .leftBracket] := by
    intro rest
    show Token.kinds ('.' :: (List.replicate 0 '.' ++ '[' :: rest)) = _
    rw [Token.kinds_dots 0 (by simp), Token.kinds_mark rfl]
    rfl
  have hcolon : Separates ":" [.colon] := Token.separates_punctuation rfl (by decide) (by decide)
  have hbounds := ((spells_bound a).after hopen).joined hcolon (spells_bound b)
  exact hbounds.then (Token.separates_punctuation rfl (by decide) (by decide))

mutual

/-- A scan of a printed tree finds the tokens of the tree. -/
theorem spells_print (e : Expr) : Spells e.print e.tokens := by
  obtain ⟨kind, span⟩ := e
  cases kind with
  | alt l r =>
    exact (spells_grouped (spells_print l) 0 _).joined separates_pipe
      (spells_grouped (spells_print r) 1 _)
  | seq l r =>
    exact (spells_grouped (spells_print l) 1 _).joined separates_space
      (spells_grouped (spells_print r) 2 _)
  | lookahead e =>
    exact (spells_grouped (spells_print e) 1 _).then
      (Token.separates_punctuation rfl (by decide) (by decide))
  | cut e =>
    exact (spells_grouped (spells_print e) 1 _).then
      (Token.separates_punctuation rfl (by decide) (by decide))
  | object es =>
    have hinner := Spells.intercalate separates_comma (spells_printObject es)
    exact (hinner.after (Token.opens_punctuation rfl (by decide))).then
      (Token.separates_punctuation rfl (by decide) (by decide))
  | array es =>
    have hinner := Spells.intercalate separates_comma (spells_printArray es)
    exact (hinner.after (Token.opens_punctuation rfl (by decide))).then
      (Token.separates_punctuation rfl (by decide) (by decide))
  | key k optional => exact spells_access k optional
  | index i optional => exact spells_access i optional
  | slice a b => exact spells_slice a b
  | spread => exact Token.spells_star
  | descent => exact Token.spells_stars
  | self => exact Token.spells_word (show Text.isIdentifier "_" = true by decide)
  | literal l => exact l.spells_print

theorem spells_printObject (es : List ObjectEntry) :
    List.Forall₂ Spells (printObject es) (objectTokens es) := by
  cases es with
  | nil => exact .nil
  | cons x es =>
    cases x with
    | field k optional v =>
      refine .cons ?_ (spells_printObject es)
      have hkey := spells_question k.spells_print optional
      have hfield := hkey.joined separates_colon (spells_print v)
      simpa [objectEntryTokens] using hfield
    | rest e => exact .cons (spells_print e).afterDots (spells_printObject es)

theorem spells_printArray (es : List ArrayEntry) :
    List.Forall₂ Spells (printArray es) (arrayTokens es) := by
  cases es with
  | nil => exact .nil
  | cons x es =>
    cases x with
    | item e => exact .cons (spells_print e) (spells_printArray es)
    | rest e => exact .cons (spells_print e).afterDots (spells_printArray es)

end

end Expr

end DataExpr
