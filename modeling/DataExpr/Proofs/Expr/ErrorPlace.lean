import DataExpr.Proofs.Expr.Viable

/-!
# The place of an error

An error of the parser says which token is to blame and which construct was being read.
`Expr.parse_error_place` says that both can be told from the tokens alone: the token is the first one
with which the tokens are no longer the front of an expression (`Expr.Viable`), and the construct is
that of the innermost delimiter that the tokens before it leave open, or a key access if the token
stands where its key should.

`Nesting` is what the tokens before a place say about delimiters.  The parser keeps the same in its
states (`Parser.State.nesting?`), and every step changes both alike (`Parser.nesting_step`).
-/

namespace DataExpr

/-! ### Open delimiters -/

/-- What tokens say about the delimiters around their end. -/
structure Nesting where
  /-- Whether the last token is a single dot. -/
  afterDot : Bool
  /-- The constructs of the delimiters that are open, the innermost first. -/
  delimiters : List ParseError.Context

namespace Nesting

/-- Before all tokens nothing is open. -/
def empty : Nesting := ⟨false, []⟩

/-- One more token.  A bracket after a dot begins a slice. -/
def next (n : Nesting) : TokenKind → Nesting
  | .leftParen => ⟨false, .group :: n.delimiters⟩
  | .leftBrace => ⟨false, .objectPattern :: n.delimiters⟩
  | .leftBracket => ⟨false, (if n.afterDot then .slice else .arrayPattern) :: n.delimiters⟩
  | .rightParen | .rightBrace | .rightBracket => ⟨false, n.delimiters.tail⟩
  | .dots 1 => ⟨true, n.delimiters⟩
  | _ => ⟨false, n.delimiters⟩

/-- What the tokens say about the delimiters around their end. -/
def ofKinds (ks : List TokenKind) : Nesting := ks.foldl next empty

/-- The construct that a token in this place belongs to. -/
def context (n : Nesting) (k : TokenKind) : Option ParseError.Context :=
  if n.afterDot = true ∧ k ≠ .leftBracket then some .key else n.delimiters.head?

end Nesting

namespace Parser

/-! ### Open constructs of a state -/

/-- The constructs that are open, without what has been read of them. -/
def contexts (stack : Stack) : List ParseError.Context := stack.map (·.1.context)

/-- What the tokens that lead to a state say about delimiters, until all has been read. -/
def State.nesting? : State → Option Nesting
  | .operand _ stack | .operator _ _ stack | .accessed _ _ _ _ stack => some ⟨false, contexts stack⟩
  | .access _ _ stack => some ⟨true, contexts stack⟩
  | .sliceStart _ _ stack | .sliceColon _ _ _ stack | .sliceStop _ _ _ stack
  | .sliceEnd _ _ _ _ stack => some ⟨false, .slice :: contexts stack⟩
  | .entry _ _ _ stack | .fieldMark _ _ _ _ stack | .fieldColon _ _ _ _ stack =>
    some ⟨false, .objectPattern :: contexts stack⟩
  | .element _ _ _ stack => some ⟨false, .arrayPattern :: contexts stack⟩
  | .accepted _ => none

variable {state next : State} {left : Left} {stack : Stack} {t : Token} {err : ParseError}
variable {n : Nesting} {e : Expr}

/-! ### Refused tokens -/

theorem contextOf_eq (stack : Stack) : contextOf stack = (contexts stack).head? :=
  List.head?_map.symm

/-- The construct that a state is in can be told from the delimiters, except after a dot where a
bracket would begin a slice. -/
theorem context_of_nesting? (hn : state.nesting? = some n)
    (hbracket : ∀ dot left stack, state = .access dot left stack → t.kind ≠ .leftBracket) :
    state.context = n.context t.kind := by
  cases state with
  | access dot left stack =>
    cases hn
    rw [Nesting.context, if_pos ⟨rfl, hbracket dot left stack rfl⟩]
    rfl
  | accepted e => cases hn
  | operand left stack =>
    cases hn
    exact contextOf_eq stack
  | operator alternatives sequence stack =>
    cases hn
    exact contextOf_eq stack
  | accessed dot key access left stack =>
    cases hn
    exact contextOf_eq stack
  | _ =>
    cases hn
    rfl

/-- A token that is refused is to blame, in the construct that the delimiters before it tell. -/
theorem blames_step (h : step state t = .error err) :
    ∃ n, state.nesting? = some n ∧ Blames err t (n.context t.kind) := by
  have hblames := blames_of_step h
  cases hn : state.nesting? with
  | none =>
    cases state with
    | accepted e => cases h
    | _ => cases hn
  | some n =>
    refine ⟨n, rfl, ?_⟩
    rwa [context_of_nesting? hn] at hblames
    -- After a dot a bracket is taken, not refused.
    rintro dot left stack rfl hbracket
    obtain ⟨kind, span⟩ := t
    cases hbracket
    cases h

/-! ### Tokens that are taken -/

theorem next_of_atom {k : TokenKind} {kind : Expr.Kind} (h : Atom k kind) :
    n.next k = ⟨false, n.delimiters⟩ := by
  cases h <;> rfl

theorem nesting_starts (h : Starts left stack t next) :
    next.nesting? = some (Nesting.next ⟨false, contexts stack⟩ t.kind) := by
  cases h with
  | atom h span =>
    rw [next_of_atom h]
    rfl
  | _ => rfl

theorem nesting_ends (ht : t.kind ≠ .eof) (h : Ends e stack t next) :
    next.nesting? = some (Nesting.next ⟨false, contexts stack⟩ t.kind) := by
  cases h with
  | whole span => exact absurd rfl ht
  | group opening span left outer => rfl
  | entry h span left outer => cases h <;> rfl
  | object h span left outer => cases h <;> rfl
  | element h span left outer => cases h <;> rfl
  | array h span left outer => cases h <;> rfl

theorem nesting_continues {alternatives : Option Expr} {sequence : Expr} (ht : t.kind ≠ .eof)
    (h : Continues alternatives sequence stack t next) :
    next.nesting? = some (Nesting.next ⟨false, contexts stack⟩ t.kind) := by
  cases h with
  | operand h => exact nesting_starts h
  | close h => exact nesting_ends ht h
  | _ => rfl

theorem next_of_key {k : TokenKind} {l : Literal} (h : Grammar.Key k l) :
    n.next k = ⟨false, n.delimiters⟩ := by
  cases h <;> rfl

theorem next_of_fieldKey {k : TokenKind} {l : Literal} (h : Grammar.FieldKey k l) :
    n.next k = ⟨false, n.delimiters⟩ := by
  cases h with
  | key h => exact next_of_key h
  | int n => rfl

theorem next_of_bound {k : TokenKind} {l : Literal} (h : Grammar.Bound [k] (some l)) :
    n.next k = ⟨false, n.delimiters⟩ := by
  cases h <;> rfl

/-- A token changes the nesting of the state as it changes that of the tokens. -/
theorem nesting_step (hn : state.nesting? = some n) (ht : t.kind ≠ .eof) (h : Step state t next) :
    next.nesting? = some (n.next t.kind) := by
  cases h with
  | operand h =>
    cases hn
    exact nesting_starts h
  | operator h =>
    cases hn
    exact nesting_continues ht h
  | plain h =>
    cases hn
    exact nesting_continues ht h
  | item h =>
    cases hn
    exact nesting_starts h
  -- A bound or a key leaves the delimiters as they are, and so do the marks after them.
  | key h =>
    cases hn
    rw [next_of_key h]
    rfl
  | start h =>
    cases hn
    rw [next_of_bound h]
    rfl
  | stop h =>
    cases hn
    rw [next_of_bound h]
    rfl
  | fieldKey h =>
    cases hn
    rw [next_of_fieldKey h]
    rfl
  | accepted e => cases hn
  | _ =>
    cases hn
    rfl

/-- The parser and the tokens agree about delimiters as long as no end mark is read. -/
theorem nesting_steps {ts : List Token} (hn : state.nesting? = some n)
    (hts : ∀ t ∈ ts, t.kind ≠ .eof) (h : ts.foldlM step state = .ok next) :
    next.nesting? = some ((ts.map Token.kind).foldl Nesting.next n) := by
  induction ts generalizing state n with
  | nil =>
    cases h
    exact hn
  | cons t ts ih =>
    rw [List.foldlM_cons] at h
    cases hstep : step state t with
    | error err =>
      rw [hstep] at h
      cases h
    | ok state' =>
      rw [hstep] at h
      have hn' := nesting_step hn (hts t List.mem_cons_self) (step_iff.1 hstep)
      exact ih hn' (fun t' ht' => hts t' (List.mem_cons_of_mem t ht')) h

end Parser

namespace Expr

/-! ### The place of an error -/

variable {ts : List Token} {stop : Token} {err : ParseError}

/-- An error of a text without an expression is about its end, as is that of the run. -/
theorem exists_refused_of_parse (hstop : stop.kind = .eof)
    (h : parse (ts ++ [stop]) = .error err) :
    ∃ pre t post state err', ts ++ [stop] = pre ++ t :: post ∧
      pre.foldlM Parser.step .initial = .ok state ∧ Parser.step state t = .error err' ∧
      err.span = err'.span ∧ err.context = err'.context := by
  obtain ⟨kind, span⟩ := stop
  subst hstop
  by_cases hempty : ∃ t ts', ts ++ [⟨.eof, span⟩] = t :: ts' ∧ t.kind = .eof
  · obtain ⟨⟨kind, span'⟩, ts', htokens, rfl⟩ := hempty
    rw [htokens, parse, if_pos rfl] at h
    cases h
    exact ⟨[], _, ts', .initial, _, htokens, rfl, rfl, rfl, rfl⟩
  · have hrun : Parser.run .initial (ts ++ [⟨.eof, span⟩]) = .error err := by
      unfold parse at h
      split at h
      · rename_i htokens
        exact absurd htokens (by simp)
      · rename_i t ts' htokens
        rwa [if_neg fun ht => hempty ⟨t, ts', htokens, ht⟩] at h
    obtain ⟨pre, t, post, state, htokens, hpre, ht⟩ := Parser.exists_refused rfl hrun
    exact ⟨pre, t, post, state, err, htokens, hpre, ht, rfl, rfl⟩

/-- Tokens before one of the list do not reach to the end mark. -/
theorem ne_eof_of_front {pre post : List Token} {t : Token} (hts : ∀ t ∈ ts, t.kind ≠ .eof)
    (htokens : ts ++ [stop] = pre ++ t :: post) : ∀ t' ∈ pre, t'.kind ≠ .eof := by
  have hlonger : pre ++ [t] <+: ts ++ [stop] := by
    rw [htokens]
    exact ⟨post, List.append_assoc pre [t] post⟩
  have hfront : pre <+: ts := by
    rcases List.prefix_concat_iff.1 hlonger with heq | hshorter
    · rw [(List.append_inj' heq rfl).1]
    · exact (List.prefix_append pre [t]).trans hshorter
  exact fun t' ht' => hts t' (hfront.subset ht')

/-- The token that an error is about is the first one up to which no expression could begin with the
tokens, and the construct that the error belongs to is the innermost one that is open there. -/
theorem parse_error_place (ts : List Token) (stop : Token) (err : ParseError)
    (hts : ∀ t ∈ ts, t.kind ≠ .eof) (hstop : stop.kind = .eof)
    (h : parse (ts ++ [stop]) = .error err) :
    ∃ k t, (ts ++ [stop])[k]? = some t ∧
      IsLeast {i | ¬ Viable ((ts ++ [stop]).take (i + 1))} k ∧ err.span = t.span ∧
      err.context = (Nesting.ofKinds (((ts ++ [stop]).take k).map Token.kind)).context t.kind := by
  obtain ⟨pre, t, post, state, err', htokens, hpre, ht, hspan, hcontext⟩ :=
    exists_refused_of_parse hstop h
  obtain ⟨n, hn, hblame⟩ := Parser.blames_step ht
  have hstart : Parser.State.initial.nesting? = some Nesting.empty := rfl
  have hnesting := Parser.nesting_steps hstart (ne_eof_of_front hts htokens) hpre
  have hn' : n = Nesting.ofKinds (pre.map Token.kind) := Option.some.inj (hn.symm.trans hnesting)
  refine ⟨pre.length, t, ?_, ?_, ?_, ?_⟩
  · rw [htokens, List.getElem?_append_right (Nat.le_refl _), Nat.sub_self]
    rfl
  · rw [htokens]
    exact isLeast_of_refused hpre ht
  · rw [hspan, hblame.1]
  · rw [hcontext, hblame.2, hn', htokens, List.take_left]

/-- The tokens of `[.[0,`. -/
def openSlice : List Token :=
  [⟨.leftBracket, ⟨0, 1⟩⟩, ⟨.dots 1, ⟨1, 2⟩⟩, ⟨.leftBracket, ⟨2, 3⟩⟩, ⟨.int 0, ⟨3, 4⟩⟩,
    ⟨.comma, ⟨4, 5⟩⟩]

/-- The end mark after them. -/
def openSliceEnd : Token := ⟨.eof, ⟨5, 5⟩⟩

/-- A comma is not what may come after the first bound of a slice, although an array pattern is open
around the slice. -/
theorem parse_error_place_openSlice :
    parse (openSlice ++ [openSliceEnd]) =
      .error ⟨.unexpectedToken "`:`" .comma, ⟨4, 5⟩, some .slice⟩ ∧
    ∃ k t, (openSlice ++ [openSliceEnd])[k]? = some t ∧
      IsLeast {i | ¬ Viable ((openSlice ++ [openSliceEnd]).take (i + 1))} k ∧ ⟨4, 5⟩ = t.span ∧
      some .slice =
        (Nesting.ofKinds (((openSlice ++ [openSliceEnd]).take k).map Token.kind)).context t.kind := by
  have hts : ∀ t ∈ openSlice, t.kind ≠ .eof := by decide
  have hparse : parse (openSlice ++ [openSliceEnd]) =
      .error ⟨.unexpectedToken "`:`" .comma, ⟨4, 5⟩, some .slice⟩ := rfl
  exact ⟨hparse, parse_error_place openSlice openSliceEnd _ hts rfl hparse⟩

end Expr

end DataExpr
