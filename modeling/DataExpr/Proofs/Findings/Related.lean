import DataExpr.Proofs.Findings.Items
import Mathlib.Data.List.Forall2

/-!
# Related evaluations and related sequences

Two evaluations are related (`Eval.Related`) if they fail with the same error or succeed with related
results, whichever session each of them is started in.  Two lazy sequences are related
(`Findings.Related`) if they have as many items and related ones at each position, errors being
related to themselves alone.  The relation between results is a parameter, and there is one lemma for
each way of making an evaluation or a sequence from others, so that a relation between the parts of two
programs is carried to the whole along what they are written in.
-/

namespace DataExpr

variable {α β γ δ : Type} {cells : Cells} {R : α → β → Prop} {S : γ → δ → Prop}

/-- Related results, or the same error. -/
inductive SameOutcome (R : α → β → Prop) : Except EvalError α → Except EvalError β → Prop where
  | ok {a : α} {b : β} (h : R a b) : SameOutcome R (.ok a) (.ok b)
  | error (e : EvalError) : SameOutcome R (.error e) (.error e)

theorem SameOutcome.imp {R' : α → β → Prop} {x : Except EvalError α} {y : Except EvalError β}
    (h : SameOutcome R x y) (hR : ∀ a b, R a b → R' a b) : SameOutcome R' x y := by
  cases h with
  | ok hab => exact .ok (hR _ _ hab)
  | error e => exact .error e

/-! ### Evaluations -/

namespace Run

/-- The results are related, whichever session each evaluation is started in. -/
def Related (cells : Cells) (R : α → β → Prop) (x : Run α) (y : Run β) : Prop :=
  ∀ s t, R (x cells s).1 (y cells t).1

theorem Related.pure {a : α} {b : β} (h : R a b) :
    Related cells R (Pure.pure a) (Pure.pure b) := fun _ _ => h

theorem Related.bind {x : Run α} {y : Run β} {f : α → Run γ} {g : β → Run δ}
    (hx : Related cells R x y) (hf : ∀ a b, R a b → Related cells S (f a) (g b)) :
    Related cells S (x >>= f) (y >>= g) :=
  fun s t => hf _ _ (hx s t) _ _

end Run

namespace Eval

/-- Both evaluations fail with one error, or their results are related. -/
def Related (cells : Cells) (R : α → β → Prop) (x : Eval α) (y : Eval β) : Prop :=
  ∀ s t, SameOutcome R (x cells s).1 (y cells t).1

theorem Related.pure {a : α} {b : β} (h : R a b) :
    Related cells R (Pure.pure a) (Pure.pure b) := fun _ _ => .ok h

theorem Related.throw (e : EvalError) :
    Related cells R (MonadExcept.throw e) (MonadExcept.throw e) := fun _ _ => .error e

theorem Related.lift {x : Run α} {y : Run β} (h : Run.Related cells R x y) :
    Related cells R (liftM x) (liftM y) := fun s t => .ok (h s t)

theorem Related.run {x : Eval α} {y : Eval β} (h : Related cells R x y) :
    Run.Related cells (SameOutcome R) x.run y.run := h

theorem Related.bind {x : Eval α} {y : Eval β} {f : α → Eval γ} {g : β → Eval δ}
    (hx : Related cells R x y) (hf : ∀ a b, R a b → Related cells S (f a) (g b)) :
    Related cells S (x >>= f) (y >>= g) := by
  intro s t
  have hfirst := hx s t
  rw [bind_apply, bind_apply]
  generalize x cells s = p, y cells t = q at hfirst
  obtain ⟨i, s'⟩ := p
  obtain ⟨j, t'⟩ := q
  cases hfirst with
  | ok h => exact hf _ _ h s' t'
  | error e => exact .error e

/-- An outcome that is awaited first may be used by an evaluation that cannot fail. -/
theorem Related.bindLift {x : Run α} {y : Run β} {f : α → Eval γ} {g : β → Eval δ}
    (hx : Run.Related cells R x y) (hf : ∀ a b, R a b → Related cells S (f a) (g b)) :
    Related cells S (liftM x >>= f) (liftM y >>= g) :=
  (Related.lift hx).bind hf

end Eval

namespace Findings

/-! ### Sequences -/

/-- As many items, related at each position, while the cells stay as they are. -/
inductive Related (cells : Cells) (R : α → β → Prop) : Findings α → Findings β → Prop where
  | intro {fs : Findings α} {gs : Findings β}
    (done : ∀ s t, (∃ s', fs.pull cells s = .done s') ↔ ∃ t', gs.pull cells t = .done t')
    (item : ∀ s t i j rest more s' t', fs.pull cells s = .found i rest s' →
      gs.pull cells t = .found j more t' → SameOutcome R i j)
    (rest : ∀ s t i j rest more s' t', fs.pull cells s = .found i rest s' →
      gs.pull cells t = .found j more t' → Related cells R rest more) : Related cells R fs gs

/-- Both sequences have come to their end, or the next items and what comes after them are related. -/
def Pull.Related (cells : Cells) (R : α → β → Prop) : Pull α → Pull β → Prop
  | .done _, .done _ => True
  | .found i rest _, .found j more _ => SameOutcome R i j ∧ rest.Related cells R more
  | _, _ => False

variable {fs : Findings α} {gs : Findings β}

theorem related_iff :
    fs.Related cells R gs ↔
      ∀ s t, (fs.pull cells s).Related cells R (gs.pull cells t) := by
  constructor
  · rintro ⟨done, item, rest⟩ s t
    cases hp : fs.pull cells s with
    | done s' =>
      obtain ⟨t', hq⟩ := (done s t).1 ⟨s', hp⟩
      rw [hq]
      trivial
    | found i more s' =>
      cases hq : gs.pull cells t with
      | done t' =>
        obtain ⟨s'', hp'⟩ := (done s t).2 ⟨t', hq⟩
        cases hp.symm.trans hp'
      | found j more' t' => exact ⟨item _ _ _ _ _ _ _ _ hp hq, rest _ _ _ _ _ _ _ _ hp hq⟩
  · intro h
    refine .intro (fun s t => ⟨?_, ?_⟩) (fun s t i j rest more s' t' hp hq => ?_)
      fun s t i j rest more s' t' hp hq => ?_
    · rintro ⟨s', hp⟩
      have hpull := h s t
      rw [hp] at hpull
      cases hq : gs.pull cells t with
      | done t' => exact ⟨t', rfl⟩
      | found j more t' => rw [hq] at hpull; exact hpull.elim
    · rintro ⟨t', hq⟩
      have hpull := h s t
      rw [hq] at hpull
      cases hp : fs.pull cells s with
      | done s' => exact ⟨s', rfl⟩
      | found i rest s' => rw [hp] at hpull; exact hpull.elim
    · have hpull := h s t
      rw [hp, hq] at hpull
      exact hpull.1
    · have hpull := h s t
      rw [hp, hq] at hpull
      exact hpull.2

/-- Pulling related sequences ends both of them or gives related items. -/
theorem Related.pull_cases (h : fs.Related cells R gs) (s t : Session) :
    (∃ s' t', fs.pull cells s = .done s' ∧ gs.pull cells t = .done t') ∨
    ∃ i j rest more s' t', fs.pull cells s = .found i rest s' ∧
      gs.pull cells t = .found j more t' ∧ SameOutcome R i j ∧ rest.Related cells R more := by
  have hpull := related_iff.1 h s t
  cases hp : fs.pull cells s with
  | done s' =>
    cases hq : gs.pull cells t with
    | done t' => exact .inl ⟨s', t', rfl, rfl⟩
    | found j more t' => rw [hp, hq] at hpull; exact hpull.elim
  | found i rest s' =>
    cases hq : gs.pull cells t with
    | done t' => rw [hp, hq] at hpull; exact hpull.elim
    | found j more t' =>
      rw [hp, hq] at hpull
      exact .inr ⟨i, j, rest, more, s', t', rfl, rfl, hpull⟩

/-! ### Sequences that are given -/

theorem Related.empty : Related cells R empty empty :=
  related_iff.2 fun _ _ => trivial

theorem Related.one {i : Except EvalError α} {j : Except EvalError β} (h : SameOutcome R i j) :
    Related cells R (one i) (one j) :=
  related_iff.2 fun _ _ => ⟨h, .empty⟩

theorem Related.single {a : α} {b : β} (h : R a b) : Related cells R (single a) (single b) :=
  .one (.ok h)

theorem Related.failed (e : EvalError) : Related cells R (failed e) (failed e) :=
  .one (.error e)

theorem Related.ofList {as : List α} {bs : List β} (h : List.Forall₂ R as bs) :
    Related cells R (ofList as) (ofList bs) := by
  induction h with
  | nil => exact .empty
  | cons hab _ ih => exact related_iff.2 fun _ _ => ⟨.ok hab, ih⟩

theorem Related.delayed {x : Run (Option (Except EvalError α))}
    {y : Run (Option (Except EvalError β))}
    (h : Run.Related cells (Option.Rel (SameOutcome R)) x y) :
    Related cells R (delayed x) (delayed y) := by
  refine related_iff.2 fun s t => ?_
  have hitem := h s t
  rw [pull_delayed, pull_delayed]
  generalize x cells s = p, y cells t = q at hitem
  obtain ⟨i, s'⟩ := p
  obtain ⟨j, t'⟩ := q
  cases hitem with
  | none => trivial
  | some h => exact ⟨h, .empty⟩

/-! ### Sequences from sequences -/

theorem Related.append {fs' : Findings α} {gs' : Findings β} (h : fs.Related cells R gs)
    (h' : fs'.Related cells R gs') : (fs.append fs').Related cells R (gs.append gs') := by
  induction fs using pull_induction generalizing gs with
  | _ fs ih =>
    refine related_iff.2 fun s t => ?_
    rw [pull_append, pull_append]
    rcases h.pull_cases s t with ⟨s', t', hp, hq⟩ | ⟨i, j, rest, more, s', t', hp, hq, hitem, hrest⟩
    · rw [hp, hq]
      exact related_iff.1 h' s' t'
    · rw [hp, hq]
      exact ⟨hitem, ih _ _ _ _ _ hp hrest⟩

theorem Related.bind {f : α → Run (Findings γ)} {g : β → Run (Findings δ)}
    (h : fs.Related cells R gs)
    (hf : ∀ a b, R a b → Run.Related cells (Related cells S) (f a) (g b)) :
    (fs.bind f).Related cells S (gs.bind g) := by
  induction fs using pull_induction generalizing gs with
  | _ fs ih =>
    refine related_iff.2 fun s t => ?_
    rw [pull_bind, pull_bind]
    rcases h.pull_cases s t with ⟨s', t', hp, hq⟩ | ⟨i, j, rest, more, s', t', hp, hq, hitem, hrest⟩
    · rw [hp, hq]
      trivial
    · rw [hp, hq]
      have hrest' := ih _ _ _ _ _ hp hrest
      cases hitem with
      | error e => exact ⟨.error e, hrest'⟩
      | ok hab => exact related_iff.1 ((hf _ _ hab s' t').append hrest') _ _

theorem Related.mapRun {f : α → Run γ} {g : β → Run δ} (h : fs.Related cells R gs)
    (hf : ∀ a b, R a b → Run.Related cells S (f a) (g b)) :
    (fs.mapRun f).Related cells S (gs.mapRun g) := by
  induction fs using pull_induction generalizing gs with
  | _ fs ih =>
    refine related_iff.2 fun s t => ?_
    rw [pull_mapRun, pull_mapRun]
    rcases h.pull_cases s t with ⟨s', t', hp, hq⟩ | ⟨i, j, rest, more, s', t', hp, hq, hitem, hrest⟩
    · rw [hp, hq]
      trivial
    · rw [hp, hq]
      have hrest' := ih _ _ _ _ _ hp hrest
      cases hitem with
      | error e => exact ⟨.error e, hrest'⟩
      | ok hab => exact ⟨.ok (hf _ _ hab s' t'), hrest'⟩

theorem Related.map {f : α → γ} {g : β → δ} (h : fs.Related cells R gs)
    (hf : ∀ a b, R a b → S (f a) (g b)) : (fs.map f).Related cells S (gs.map g) :=
  h.mapRun fun a b hab => .pure (hf a b hab)

theorem Related.take (h : fs.Related cells R gs) (n : Nat) :
    (fs.take n).Related cells R (gs.take n) := by
  induction n generalizing fs gs with
  | zero => exact .empty
  | succ n ih =>
    refine related_iff.2 fun s t => ?_
    rw [pull_take_succ, pull_take_succ]
    rcases h.pull_cases s t with ⟨s', t', hp, hq⟩ | ⟨i, j, rest, more, s', t', hp, hq, hitem, hrest⟩
    · rw [hp, hq]
      trivial
    · rw [hp, hq]
      exact ⟨hitem, ih hrest⟩

/-! ### Asking for items -/

theorem Related.next (h : fs.Related cells R gs) :
    Run.Related cells (Option.Rel fun p q => SameOutcome R p.1 q.1) fs.next gs.next := by
  intro s t
  rw [Findings.next, Findings.next]
  rcases h.pull_cases s t with ⟨s', t', hp, hq⟩ | ⟨i, j, rest, more, s', t', hp, hq, hitem, -⟩
  · rw [hp, hq]
    exact .none
  · rw [hp, hq]
    exact .some hitem

theorem Related.first (h : fs.Related cells R gs) :
    Eval.Related cells (Option.Rel R) fs.first gs.first := by
  intro s t
  rw [Findings.first, Findings.first]
  rcases h.pull_cases s t with ⟨s', t', hp, hq⟩ | ⟨i, j, rest, more, s', t', hp, hq, hitem, -⟩
  · rw [hp, hq]
    exact .ok .none
  · rw [hp, hq]
    cases hitem with
    | error e => exact .error e
    | ok hab => exact .ok (.some hab)

theorem Related.nth (h : fs.Related cells R gs) (n : Nat) :
    Eval.Related cells (Option.Rel R) (fs.nth n) (gs.nth n) := by
  induction n generalizing fs gs with
  | zero => exact h.first
  | succ n ih =>
    intro s t
    simp only [Findings.nth]
    rcases h.pull_cases s t with ⟨s', t', hp, hq⟩ | ⟨i, j, rest, more, s', t', hp, hq, hitem, hrest⟩
    · rw [hp, hq]
      exact .ok .none
    · rw [hp, hq]
      cases hitem with
      | error e => exact .error e
      | ok hab => exact ih hrest s' t'

theorem Related.collect (h : fs.Related cells R gs) :
    Eval.Related cells (List.Forall₂ R) fs.collect gs.collect := by
  induction fs using pull_induction generalizing gs with
  | _ fs ih =>
    intro s t
    rw [collect_eq, collect_eq]
    rcases h.pull_cases s t with ⟨s', t', hp, hq⟩ | ⟨i, j, rest, more, s', t', hp, hq, hitem, hrest⟩
    · rw [hp, hq]
      exact .ok .nil
    · rw [hp, hq]
      cases hitem with
      | error e => exact .error e
      | ok hab =>
        have hrest' := ih _ _ _ _ _ hp hrest s' t'
        simp only [Pull.collect]
        generalize rest.collect cells s' = p, more.collect cells t' = q at hrest'
        obtain ⟨i, s''⟩ := p
        obtain ⟨j, t''⟩ := q
        cases hrest' with
        | error e => exact .error e
        | ok has => exact .ok (.cons hab has)

/-- All items and errors are related position by position. -/
theorem Related.toList (h : fs.Related cells R gs) :
    Run.Related cells (List.Forall₂ (SameOutcome R)) fs.toList gs.toList := by
  induction fs using pull_induction generalizing gs with
  | _ fs ih =>
    intro s t
    rw [toList_eq, toList_eq]
    rcases h.pull_cases s t with ⟨s', t', hp, hq⟩ | ⟨i, j, rest, more, s', t', hp, hq, hitem, hrest⟩
    · rw [hp, hq]
      exact .nil
    · rw [hp, hq]
      exact .cons hitem (ih _ _ _ _ _ hp hrest s' t')

end Findings

end DataExpr
