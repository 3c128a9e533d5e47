import DataExpr.Proofs.Findings.Loop
import DataExpr.Proofs.Matcher.Restoring.Combine

/-!
# The combinations of a list shape

The combinations of a list shape are the choices of a nested loop over the matches of the elements, with
the first element in the outermost loop (`product_eq`).  The match for a combination rebuilds the list
item by item, each item through the match at its position (`ListMatch`).  The replacements are made one
after the other; the first that fails decides, and items past the matches stay as they are.
-/

namespace DataExpr.Matcher

open Findings (nestedLoop)

variable {cells : Cells} {s t : Session} {found : List Match} {items : List Value}

/-! ### Combinations -/

theorem product_eq (positions : List (Matcher × Value)) :
    product positions = nestedLoop (positions.map fun p => p.1 p.2) := by
  have hfold := Findings.foldl_bind_eq (positions.map fun p => p.1 p.2) (.single [])
  rw [List.foldl_map, Findings.single_bind_pure] at hfold
  refine hfold.trans ?_
  rw [Findings.map_eq_bind]
  exact Findings.bind_single _

/-! ### Items that are replaced one by one -/

/-- Each item that has a match at its position is replaced through it, the first in the session
`session 0`, and each in the session that the one before it leaves.  The outcomes are `news`, where the
items past the matches stay as they are. -/
structure Rebuilt (cells : Cells) (found : List Match) (items : List Value)
    (session : Nat → Session) (news : List Value) : Prop where
  length_eq : news.length = items.length
  replaced : ∀ i m v, found[i]? = some m → items[i]? = some v →
    ∃ w, news[i]? = some w ∧ m.replace v cells (session i) = (.ok w, session (i + 1))
  kept : ∀ i, found.length ≤ i → news[i]? = items[i]?

/-- The replacement of the item at position `i` is the first one that fails, and leaves the session
`t`. -/
structure FailsAt (cells : Cells) (found : List Match) (items : List Value)
    (session : Nat → Session) (i : Nat) (e : EvalError) (t : Session) : Prop where
  before : ∀ j < i, ∀ m v, found[j]? = some m → items[j]? = some v →
    ∃ w, m.replace v cells (session j) = (.ok w, session (j + 1))
  here : ∃ m v, found[i]? = some m ∧ items[i]? = some v ∧
    m.replace v cells (session i) = (.error e, t)

/-- One session before all others. -/
def beginning (s : Session) (session : Nat → Session) : Nat → Session
  | 0 => s
  | i + 1 => session i

theorem Rebuilt.cons {session : Nat → Session} {news : List Value} {m : Match} {v w : Value}
    (h : Rebuilt cells found items session news) (hm : m.replace v cells s = (.ok w, session 0)) :
    Rebuilt cells (m :: found) (v :: items) (beginning s session) (w :: news) where
  length_eq := by rw [List.length_cons, List.length_cons, h.length_eq]
  replaced := by
    intro i m' v' hfound hitems
    cases i with
    | zero =>
      obtain rfl := Option.some.inj hfound
      obtain rfl := Option.some.inj hitems
      exact ⟨w, rfl, hm⟩
    | succ i => exact h.replaced i m' v' hfound hitems
  kept := by
    intro i hi
    cases i with
    | zero => cases hi
    | succ i => exact h.kept i (Nat.le_of_succ_le_succ hi)

theorem FailsAt.cons {session : Nat → Session} {i : Nat} {e : EvalError} {m : Match} {v w : Value}
    (h : FailsAt cells found items session i e t)
    (hm : m.replace v cells s = (.ok w, session 0)) :
    FailsAt cells (m :: found) (v :: items) (beginning s session) (i + 1) e t where
  before := by
    intro j hj m' v' hfound hitems
    cases j with
    | zero =>
      obtain rfl := Option.some.inj hfound
      obtain rfl := Option.some.inj hitems
      exact ⟨w, hm⟩
    | succ j => exact h.before j (Nat.lt_of_succ_lt_succ hj) m' v' hfound hitems
  here := h.here

/-- Replacing the items gives the first error, or the list of the outcomes. -/
theorem replaceItems_cases (cells : Cells) (found : List Match) (items : List Value) (s : Session) :
    ∃ session : Nat → Session, session 0 = s ∧
      ((∃ i e t, FailsAt cells found items session i e t ∧
        replaceItems found items cells s = (.error e, t)) ∨
      ∃ news, Rebuilt cells found items session news ∧ replaceItems found items cells s =
        (.ok news, session (min found.length items.length))) := by
  induction found generalizing items s with
  | nil =>
    refine ⟨fun _ => s, rfl, .inr ⟨items, ⟨rfl, nofun, fun _ _ => rfl⟩, ?_⟩⟩
    cases items <;> rfl
  | cons m found ih =>
    cases items with
    | nil =>
      exact ⟨fun _ => s, rfl, .inr ⟨[], ⟨rfl, fun _ _ _ _ h => (nomatch h), fun _ _ => rfl⟩, rfl⟩⟩
    | cons v items =>
      rw [replaceItems, Eval.bind_apply]
      rcases hm : m.replace v cells s with ⟨e | w, s'⟩
      · refine ⟨fun _ => s, rfl, .inl ⟨0, e, s', ⟨nofun, m, v, rfl, rfl, hm⟩, rfl⟩⟩
      · obtain ⟨session, rfl, hrest⟩ := ih items s'
        refine ⟨beginning s session, rfl, ?_⟩
        simp only []
        rw [Eval.bind_apply]
        rcases hrest with ⟨i, e, t, hfails, heq⟩ | ⟨news, hnews, heq⟩
        · rw [heq]
          exact .inl ⟨i + 1, e, t, hfails.cons hm, rfl⟩
        · rw [heq, List.length_cons, List.length_cons, Nat.succ_min_succ]
          exact .inr ⟨w :: news, hnews.cons hm, rfl⟩

/-! ### Matches of list shapes -/

/-- The match of a list shape for a combination, where `count` elements have a matcher of their own.
It has the list of the values that were found.  A list that is put in its place has to be long enough for
these elements; its items are replaced one by one, and the first error is the outcome if there is
one. -/
structure ListMatch (count : Nat) (found : List Match) (m : Match) : Prop where
  value : ∃ node, m.value = .list node (found.map Match.value)
  replace_short : ∀ {cells new node items}, cells.resolve new = .list node items →
    items.length < count → ∀ s, m.replace new cells s =
      (.error (.arityMismatch count items.length), s)
  replace : ∀ {cells new node items}, cells.resolve new = .list node items →
    count ≤ items.length → ∀ s, ∃ session : Nat → Session, session 0 = s ∧
      ((∃ i e t, FailsAt cells found items session i e t ∧ m.replace new cells s = (.error e, t)) ∨
      ∃ node' news t, Rebuilt cells found items session news ∧
        m.replace new cells s = (.ok (.list node' news), t))

/-- The match of a list shape for a combination. -/
def combineList (count : Nat) (found : List Match) : Run Match := do
  return ⟨← Run.newList (found.map Match.value), fun new => do
    match ← Run.resolve new with
    | .list _ replacement =>
      if replacement.length < count then throw (.arityMismatch count replacement.length)
      else Run.newList (← replaceItems found replacement)
    | _ => Eval.mismatch "array" new⟩

theorem listMatch_combineList (count : Nat) (found : List Match) (cells : Cells) (s : Session) :
    ListMatch count found (combineList count found cells s).1 where
  value := ⟨s.nextNode, rfl⟩
  replace_short := by
    intro cells new node items hnew hshort s
    simp only [combineList, Run.bind_apply, Run.pure_apply]
    rw [Eval.bind_apply, Eval.lift_apply, Run.resolve_apply, hnew]
    simp only [if_pos hshort]
    rfl
  replace := by
    intro cells new node items hnew hlong s
    simp only [combineList, Run.bind_apply, Run.pure_apply]
    rw [Eval.bind_apply, Eval.lift_apply, Run.resolve_apply, hnew]
    simp only [if_neg (Nat.not_lt.2 hlong)]
    rw [Eval.bind_apply]
    obtain ⟨session, hstart, hcases⟩ := replaceItems_cases cells found items s
    refine ⟨session, hstart, ?_⟩
    rcases hcases with ⟨i, e, t, hfails, heq⟩ | ⟨news, hnews, heq⟩
    · rw [heq]
      exact .inl ⟨i, e, t, hfails, rfl⟩
    · rw [heq]
      exact .inr ⟨_, news, _, hnews, rfl⟩

/-- A list that fits has the matches of the nested loop over its elements. -/
theorem array_apply {items : List Matcher} {rest : Option Matcher} {focus : Value} {node : Nat}
    {values : List Value} (hfocus : cells.resolve focus = .list node values)
    (hfits : if rest.isSome then items.length ≤ values.length else values.length = items.length)
    (s : Session) :
    array items rest focus cells s =
      ((nestedLoop ((positions items rest values).map fun p => p.1 p.2)).mapRun
        (combineList items.length), s) := by
  rw [← product_eq, array, Run.bind_apply, Run.resolve_apply, hfocus]
  simp only []
  rw [if_pos hfits]
  rfl

end DataExpr.Matcher
