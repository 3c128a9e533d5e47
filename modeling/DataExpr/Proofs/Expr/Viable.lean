import DataExpr.Proofs.Expr.Grammar.Parse
import Mathlib.Order.Bounds.Defs

/-!
# Fronts of expressions

Tokens are viable if some expression begins with them (`Expr.Viable`).  The parser steps through
tokens without an error exactly as long as they are viable (`Expr.viable_iff`): every state can be
completed, by what is still owed at its place and the closing marks of the open constructs
(`Parser.reads_completion`), and a token that is refused is refused whatever comes after it.

So the token at which a run fails is the first one that makes the tokens before it unviable
(`Expr.isLeast_of_refused`).
-/

namespace DataExpr

namespace Parser

/-- The state before the first token. -/
abbrev State.initial : State := .operand .empty []

variable {state next : State} {stack : Stack} {ts : List Token} {t : Token} {err : ParseError}

/-! ### Completions -/

/-- The mark that ends the construct. -/
def Frame.closing : Frame → TokenKind
  | group _ => .rightParen
  | field .. | objectRest .. => .rightBrace
  | item .. | arrayRest .. => .rightBracket

/-- The marks that end the open constructs. -/
def closings (stack : Stack) : List TokenKind := stack.map (·.1.closing)

/-- Tokens that complete the state to a whole expression, up to the end mark. -/
def State.completion : State → List TokenKind
  | .operand _ stack | .access _ _ stack => .underscore :: closings stack
  | .operator _ _ stack | .accessed _ _ _ _ stack => closings stack
  | .sliceStart _ _ stack | .sliceColon _ _ _ stack => .colon :: .rightBracket :: closings stack
  | .sliceStop _ _ _ stack | .sliceEnd _ _ _ _ stack => .rightBracket :: closings stack
  | .entry _ _ _ stack => .rightBrace :: closings stack
  | .fieldMark _ _ _ _ stack | .fieldColon _ _ _ _ stack =>
    .colon :: .underscore :: .rightBrace :: closings stack
  | .element _ _ _ stack => .rightBracket :: closings stack
  | .accepted _ => []

/-- After an operand the open constructs may end, one after the other. -/
theorem reads_closings (alternatives : Option Expr) (sequence : Expr) (stack : Stack) :
    Reads (fun _ => True) (.operator alternatives sequence stack) (closings stack ++ [.eof]) := by
  induction stack generalizing alternatives sequence with
  | nil => exact reads_step (fun _ => rfl) fun _ => ⟨_, rfl, trivial⟩
  | cons entry stack ih =>
    obtain ⟨frame, left⟩ := entry
    cases frame <;> exact reads_step (fun _ => rfl) fun _ => ih _ _

theorem head_closings_ne (stack : Stack) :
    (closings stack ++ [TokenKind.eof]).head? ≠ some .question := by
  cases stack with
  | nil => exact nofun
  | cons entry stack =>
    obtain ⟨frame, left⟩ := entry
    cases frame <;> exact nofun

/-- Every state can be completed. -/
theorem reads_completion (state : State) :
    Reads (fun _ => True) state (state.completion ++ [.eof]) := by
  cases state with
  | operator alternatives sequence stack => exact reads_closings alternatives sequence stack
  | accepted e => exact reads_step (fun _ => rfl) fun _ => ⟨e, rfl, trivial⟩
  | accessed dot key access left stack =>
    exact reads_accessed (head_closings_ne stack) (reads_closings _ _ stack)
  | access dot left stack =>
    refine reads_step (fun _ => rfl) fun _ => ?_
    exact reads_accessed (head_closings_ne stack) (reads_closings _ _ stack)
  | operand left stack => exact reads_step (fun _ => rfl) fun _ => reads_closings _ _ stack
  | sliceStop dot start left stack =>
    exact reads_step (fun _ => rfl) fun _ => reads_closings _ _ stack
  | sliceEnd dot start stop left stack =>
    exact reads_step (fun _ => rfl) fun _ => reads_closings _ _ stack
  | entry opening done left stack =>
    exact reads_step (fun _ => rfl) fun _ => reads_closings _ _ stack
  | element opening done left stack =>
    exact reads_step (fun _ => rfl) fun _ => reads_closings _ _ stack
  | sliceStart dot left stack =>
    refine reads_step (fun _ => rfl) fun _ => ?_
    exact reads_step (fun _ => rfl) fun _ => reads_closings _ _ stack
  | sliceColon dot start left stack =>
    refine reads_step (fun _ => rfl) fun _ => ?_
    exact reads_step (fun _ => rfl) fun _ => reads_closings _ _ stack
  | fieldMark opening done key left stack =>
    refine reads_step (fun _ => rfl) fun _ => reads_step (fun _ => rfl) fun _ => ?_
    exact reads_step (fun _ => rfl) fun _ => reads_closings _ _ stack
  | fieldColon opening done key left stack =>
    refine reads_step (fun _ => rfl) fun _ => reads_step (fun _ => rfl) fun _ => ?_
    exact reads_step (fun _ => rfl) fun _ => reads_closings _ _ stack

/-! ### Runs in two parts -/

theorem run_cons (state : State) (t : Token) (ts : List Token) :
    run state (t :: ts) = step state t >>= (run · ts) := by
  cases state with
  | accepted e =>
    -- Nothing changes any more once the expression is complete.
    show _ = run (.accepted e) ts
    rw [run, run]
  | _ =>
    rw [run]
    · generalize step _ t = x
      cases x <;> rfl
    · intro e he
      cases he

theorem run_append (state : State) (ts ts' : List Token) :
    run state (ts ++ ts') = ts.foldlM step state >>= (run · ts') := by
  induction ts generalizing state with
  | nil => rfl
  | cons t ts ih =>
    rw [List.cons_append, run_cons, List.foldlM_cons, bind_assoc]
    exact congrArg _ (funext fun next => ih next)

theorem not_starts_eof {left : Left} {span : Span} : ¬ Starts left stack ⟨.eof, span⟩ next := by
  intro h
  cases h with
  | atom h => cases h

theorem accepted_of_continues {alternatives : Option Expr} {sequence : Expr} {span : Span}
    (h : Continues alternatives sequence stack ⟨.eof, span⟩ next) : ∃ e, next = .accepted e := by
  cases h with
  | operand h => exact absurd h not_starts_eof
  | close h =>
    -- Inside a construct its closing mark is missing.
    cases h with
    | whole span => exact ⟨_, rfl⟩

/-- The end mark completes a state or is refused. -/
theorem accepted_of_step (ht : t.kind = .eof) (h : Step state t next) :
    ∃ e, next = .accepted e := by
  obtain ⟨kind, span⟩ := t
  subst ht
  cases h with
  | operator h => exact accepted_of_continues h
  | plain h => exact accepted_of_continues h
  | accepted e => exact ⟨e, rfl⟩
  | operand h => exact absurd h not_starts_eof
  | item h => exact absurd h not_starts_eof
  | key h => cases h
  | start h => cases h
  | stop h => cases h
  | fieldKey h => cases h with
    | key h => cases h

/-- A run that fails does so at a token that is refused. -/
theorem exists_refused {stop : Token} (hstop : stop.kind = .eof)
    (h : run state (ts ++ [stop]) = .error err) :
    ∃ pre t post next, ts ++ [stop] = pre ++ t :: post ∧ pre.foldlM step state = .ok next ∧
      step next t = .error err := by
  induction ts generalizing state with
  | nil =>
    rw [List.nil_append, run_cons] at h
    cases hstep : step state stop with
    | error err' =>
      rw [hstep] at h
      cases h
      exact ⟨[], stop, [], state, rfl, rfl, hstep⟩
    | ok next =>
      obtain ⟨e, rfl⟩ := accepted_of_step hstop (step_iff.1 hstep)
      rw [hstep] at h
      cases h
  | cons t ts ih =>
    rw [List.cons_append, run_cons] at h
    cases hstep : step state t with
    | error err' =>
      rw [hstep] at h
      cases h
      exact ⟨[], t, ts ++ [stop], state, rfl, rfl, hstep⟩
    | ok next =>
      rw [hstep] at h
      obtain ⟨pre, t', post, next', hts, hpre, ht'⟩ := ih h
      refine ⟨t :: pre, t', post, next', ?_, ?_, ht'⟩
      · rw [List.cons_append, hts, List.cons_append]
      · rw [List.foldlM_cons, hstep]
        exact hpre

end Parser

namespace Expr

/-! ### Viable tokens -/

/-- Whether the tokens can go on to an expression. -/
def Viable (ts : List Token) : Prop := ∃ rest e, parse (ts ++ rest) = .ok e

variable {ts pre post : List Token} {state : Parser.State} {t : Token} {err : ParseError}

/-- Nothing can be parsed that begins with the end mark, and the rest is the run of the parser. -/
theorem parse_of_run {e : Expr} (h : Parser.run .initial ts = .ok e) : parse ts = .ok e := by
  cases ts with
  | nil => cases h
  | cons t ts =>
    have ht : t.kind ≠ .eof := by
      intro ht
      obtain ⟨kind, span⟩ := t
      subst ht
      cases h
    rw [parse, if_neg ht]
    exact h

/-- Tokens are viable exactly if the parser steps through them. -/
theorem viable_iff (ts : List Token) :
    Viable ts ↔ ∃ state, ts.foldlM Parser.step .initial = .ok state := by
  constructor
  · rintro ⟨rest, e, hparse⟩
    have hrun := run_of_parse hparse
    rw [Parser.run_append] at hrun
    cases hsteps : ts.foldlM Parser.step .initial with
    | error err =>
      rw [hsteps] at hrun
      cases hrun
    | ok state => exact ⟨state, rfl⟩
  · rintro ⟨state, hsteps⟩
    -- The tokens of a completion may have any spans.
    have hkinds : ((state.completion ++ [TokenKind.eof]).map Token.dummy).map Token.kind =
        state.completion ++ [TokenKind.eof] := by
      rw [List.map_map]
      exact List.map_id _
    have hreads := Parser.reads_completion state
    rw [← hkinds] at hreads
    obtain ⟨e, hrun, _⟩ := Parser.run_of_reads hreads
    refine ⟨(state.completion ++ [TokenKind.eof]).map Token.dummy, e, parse_of_run ?_⟩
    rw [Parser.run_append, hsteps]
    exact hrun

/-- A token that is refused is the first one that makes the tokens up to it unviable. -/
theorem isLeast_of_refused (hpre : pre.foldlM Parser.step .initial = .ok state)
    (ht : Parser.step state t = .error err) :
    IsLeast {i | ¬ Viable ((pre ++ t :: post).take (i + 1))} pre.length := by
  constructor
  · show ¬ Viable ((pre ++ t :: post).take (pre.length + 1))
    have htake : (pre ++ t :: post).take (pre.length + 1) = pre ++ [t] := by
      rw [List.take_length_add_append, List.take_succ_cons, List.take_zero]
    rw [htake, viable_iff]
    rintro ⟨next, hnext⟩
    rw [List.foldlM_append, hpre] at hnext
    change (Parser.step state t >>= pure) = _ at hnext
    rw [ht] at hnext
    cases hnext
  · intro i hi
    by_contra hlt
    refine hi ((viable_iff _).2 ?_)
    -- The tokens up to `i` are a front of those that the parser has stepped through.
    rw [List.take_append_of_le_length (by omega)]
    have hparts := List.take_append_drop (i + 1) pre
    rw [← hparts, List.foldlM_append] at hpre
    cases hsteps : (pre.take (i + 1)).foldlM Parser.step .initial with
    | error err' =>
      rw [hsteps] at hpre
      cases hpre
    | ok next => exact ⟨next, rfl⟩

end Expr

end DataExpr
