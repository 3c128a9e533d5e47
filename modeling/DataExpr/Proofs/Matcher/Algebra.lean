import DataExpr.Proofs.Findings.Loop
import DataExpr.Proofs.Matcher.Nesting

/-!
# Laws of matchers

A sequence distributes over a choice in front (`sequence_choice`), the focus itself is neutral in a
sequence and nothing absorbs what comes after it, limits in limits are one limit, and a lookahead only
needs to see the first match.  These are equations between matchers.  Where a sequence stands on one
side alone, the other side is deferred: a sequence makes the matches of its first part when its own
first match is asked for, and not before.

A sequence that ends with a limit of zero has no matches.  It still goes through all matches of its
first part, and its errors are the errors among them (`Findings.toList_bind_empty`).
-/

namespace DataExpr

namespace Findings

variable {α : Type} {cells : Cells}

/-! ### The errors of a sequence -/

/-- The items that are errors. -/
def errorItems (is : List (Except EvalError α)) : List (Except EvalError α) :=
  is.filter fun i => !i.isOk

/-- Run something for an item that is no error, and keep the item. -/
def visit (f : α → Run Unit) (i : Except EvalError α) : Run (Except EvalError α) := do
  if let .ok a := i then f a
  return i

/-- Of a sequence whose items are bound to nothing the errors are left. -/
theorem toList_bind_empty (f : α → Run Unit) (fs : Findings α) (s : Session) :
    (fs.bind fun a => do f a; return empty).toList cells s =
      (errorItems (fs.forEach (visit f) cells s).1, (fs.forEach (visit f) cells s).2) := by
  induction fs using pull_induction generalizing s with
  | _ fs ih =>
    rw [toList_eq, forEach_eq, pull_bind]
    cases hp : fs.pull cells s with
    | done t => rfl
    | found i rest t =>
      have hrest := ih cells s i rest t hp
      cases i with
      | error e =>
        show (Except.error e :: ((rest.bind _).toList cells t).1, _) = _
        rw [hrest]
        rfl
      | ok a =>
        have hpull : (Pull.found (.ok a) rest t).bind (fun a => do f a; return empty) cells =
            (rest.bind fun a => do f a; return (empty : Findings α)).pull cells (f a cells t).2 := by
          rw [Pull.bind_ok]
          exact congrArg (pull · cells (f a cells t).2) (empty_append _)
        rw [hpull, ← toList_eq, hrest]
        rfl

/-- What is run for the items is not noticed if it leaves the session as it is. -/
theorem forEach_visit {f : α → Run Unit} (h : ∀ a s, (f a cells s).2 = s) (fs : Findings α)
    (s : Session) : fs.forEach (visit f) cells s = fs.toList cells s := by
  induction fs using pull_induction generalizing s with
  | _ fs ih =>
    rw [toList_eq, forEach_eq]
    cases hp : fs.pull cells s with
    | done t => rfl
    | found i rest t =>
      have hvisit : visit f i cells t = (i, t) := by
        cases i with
        | error e => rfl
        | ok a => exact congrArg (Except.ok a, ·) (h a t)
      simp only [hvisit, ih cells s i rest t hp]

end Findings

namespace Matcher

open Findings (deferred deferred_pure)

variable (a b c : Matcher) (m n : Nat) (focus : Value)

/-! ### Sequences and choices of two -/

theorem within_whole : a.within (Matches.whole focus) = deferred (a focus) := by
  have hinside : (fun inner => (Match.whole focus).inside inner) = fun inner => inner :=
    funext (Match.whole_inside focus)
  rw [within, Matches.whole, Findings.single_bind]
  simp only [Match.value_whole, hinside, Findings.map_id, bind_pure]
  rfl

theorem within_append (found found' : Matches) :
    a.within (found.append found') = (a.within found).append (a.within found') :=
  Findings.bind_append _ found found'

theorem within_self (found : Matches) :
    within (fun focus => return Matches.whole focus) found = found := by
  show (found.bind fun outer => return (Matches.whole outer.value).map outer.inside) = found
  simp only [Matches.whole, Findings.map_single, Match.inside_whole, Findings.bind_single]

theorem branches_cons (ms : List Matcher) :
    branches (a :: ms) focus = (deferred (a focus)).append (branches ms focus) := by
  rw [branches, Findings.ofList_cons, Findings.bind_append, Findings.single_bind]
  rfl

theorem sequence_pair : sequence [a, b] focus = return b.within (deferred (a focus)) :=
  congrArg (fun found => pure (b.within found)) (within_whole a focus)

theorem choice_pair :
    choice [a, b] focus = return (deferred (a focus)).append (deferred (b focus)) := by
  have hnil : branches [] focus = .empty := rfl
  rw [choice_eq]
  simp only [branches_cons, hnil, Findings.append_empty]

/-! ### Laws of sequences -/

theorem sequence_choice :
    sequence [choice [a, b], c] focus = choice [sequence [a, c], sequence [b, c]] focus := by
  simp only [sequence_pair, choice_pair, deferred_pure, within_append]

theorem sequence_self_left :
    sequence [fun focus => return Matches.whole focus, a] focus = return deferred (a focus) := by
  rw [sequence_pair, deferred_pure, within_whole]

theorem sequence_self_right :
    sequence [a, fun focus => return Matches.whole focus] focus = return deferred (a focus) := by
  rw [sequence_pair, within_self]

theorem sequence_fail : sequence [fun _ => return .empty, a] focus = return .empty := by
  rw [sequence_pair, deferred_pure]
  rfl

/-- The matches of the last part are made for each match of the first one, but not asked for. -/
theorem sequence_limit_zero :
    sequence [a, b.limit 0] focus = return (deferred (a focus)).bind fun found => do
      discard (b found.value)
      return .empty := by
  rw [sequence_pair]
  rfl

/-! ### Laws of limits and lookaheads -/

theorem limit_limit : limit (limit a m) n focus = limit a (min m n) focus := by
  simp only [limit, bind_assoc, pure_bind, Findings.take_take]

/-- The focus if there is a first match, or the error in its place, when it is asked for. -/
def seen (a : Matcher) (focus : Value) : Run (Option (Except EvalError Match)) := fun cells s =>
  match (deferred (a focus)).pull cells s with
  | .done t => (none, t)
  | .found item _ t => (some (item.map fun _ => .whole focus), t)

theorem lookahead_eq : lookahead a focus = return .delayed (seen a focus) := by
  refine congrArg (fun step => pure (Findings.delayed step)) (funext fun cells => funext fun s => ?_)
  simp only [seen, Run.bind_apply, Findings.next, Findings.pull_deferred]
  rcases (a focus cells s).1.pull cells (a focus cells s).2 with _ | ⟨_ | _, _, _⟩ <;> rfl

theorem lookahead_lookahead : lookahead (lookahead a) focus = lookahead a focus := by
  rw [lookahead_eq, lookahead_eq]
  refine congrArg (fun step => pure (Findings.delayed step)) (funext fun cells => funext fun s => ?_)
  rw [seen, lookahead_eq, deferred_pure, Findings.pull_delayed]
  simp only [seen]
  rcases (deferred (a focus)).pull cells s with _ | ⟨_ | _, _, _⟩ <;> rfl

theorem lookahead_limit : lookahead (limit a (n + 1)) focus = lookahead a focus := by
  rw [lookahead_eq, lookahead_eq]
  refine congrArg (fun step => pure (Findings.delayed step)) (funext fun cells => funext fun s => ?_)
  simp only [seen, Findings.pull_deferred, limit, Run.bind_apply, Run.pure_apply,
    Findings.pull_take_succ]
  rcases (a focus cells s).1.pull cells (a focus cells s).2 with _ | ⟨_, _, _⟩ <;> rfl

end Matcher

end DataExpr
