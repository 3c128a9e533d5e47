import DataExpr.Pattern

/-!
# Evaluations that succeed

`Eval.Ensures e cells s P`: started in the session `s`, the evaluation `e` succeeds, and `P` holds of
its outcome and of the session after it.  It is total: an evaluation that fails ensures nothing.  The
lemmas for `pure`, `bind` and the making of containers let a proof follow an evaluation step by
step (`Ensures.bind`) without unfolding the monads it is written in.
-/

namespace DataExpr

variable {α β : Type} {cells : Cells} {s : Session}

namespace Session

/-- The session after `n` containers have been made. -/
def after (n : Nat) (s : Session) : Session := { s with nextNode := s.nextNode + n }

@[simp] theorem nextNode_after (n : Nat) (s : Session) :
    (s.after n).nextNode = s.nextNode + n := rfl

@[simp] theorem journal_after (n : Nat) (s : Session) : (s.after n).journal = s.journal := rfl

@[simp] theorem after_zero (s : Session) : s.after 0 = s := rfl

@[simp] theorem after_after (m n : Nat) (s : Session) : (s.after m).after n = s.after (m + n) := by
  simp only [after, Nat.add_assoc]

end Session

namespace Run

@[simp] theorem pure_apply (a : α) (cells : Cells) (s : Session) :
    (pure a : Run α) cells s = (a, s) := rfl

@[simp] theorem bind_apply (x : Run α) (f : α → Run β) (cells : Cells) (s : Session) :
    (x >>= f) cells s = f (x cells s).1 cells (x cells s).2 := rfl

@[simp] theorem resolve_apply (v : Value) (cells : Cells) (s : Session) :
    Run.resolve v cells s = (cells.resolve v, s) := rfl

@[simp] theorem typeName_apply (v : Value) (cells : Cells) (s : Session) :
    Run.typeName v cells s = (cells.typeName v, s) := rfl

@[simp] theorem newList_apply (items : List Value) (cells : Cells) (s : Session) :
    Run.newList items cells s = (.list s.nextNode items, s.after 1) := rfl

@[simp] theorem newMap_apply (entries : List (String × Value)) (cells : Cells) (s : Session) :
    Run.newMap entries cells s = (.map s.nextNode entries, s.after 1) := rfl

end Run

namespace Eval

@[simp] theorem pure_apply (a : α) (cells : Cells) (s : Session) :
    (pure a : Eval α) cells s = (.ok a, s) := rfl

@[simp] theorem throw_apply (e : EvalError) (cells : Cells) (s : Session) :
    (throw e : Eval α) cells s = (.error e, s) := rfl

theorem bind_apply (x : Eval α) (f : α → Eval β) (cells : Cells) (s : Session) :
    (x >>= f) cells s = match x cells s with
      | (.ok a, s') => f a cells s'
      | (.error e, s') => (.error e, s') := by
  show ExceptT.bindCont f (x cells s).1 cells (x cells s).2 = _
  rcases x cells s with ⟨_ | _, _⟩ <;> rfl

@[simp] theorem lift_apply (x : Run α) (cells : Cells) (s : Session) :
    (liftM x : Eval α) cells s = (.ok (x cells s).1, (x cells s).2) := rfl

/-- The first part of an evaluation that has succeeded has succeeded. -/
theorem bind_eq_ok {x : Eval α} {f : α → Eval β} {b : β} {s' : Session}
    (h : (x >>= f) cells s = (.ok b, s')) :
    ∃ a t, x cells s = (.ok a, t) ∧ f a cells t = (.ok b, s') := by
  rw [bind_apply] at h
  split at h
  · rename_i a t ha
    exact ⟨a, t, ha, h⟩
  · cases h

/-- The evaluation succeeds, and `P` holds of the outcome and the session after it. -/
def Ensures (e : Eval α) (cells : Cells) (s : Session) (P : α → Session → Prop) : Prop :=
  ∃ a s', e cells s = (.ok a, s') ∧ P a s'

theorem Ensures.pure {a : α} {P : α → Session → Prop} (h : P a s) :
    (Pure.pure a : Eval α).Ensures cells s P := ⟨a, s, rfl, h⟩

theorem Ensures.lift {x : Run α} {P : α → Session → Prop} (h : P (x cells s).1 (x cells s).2) :
    (liftM x : Eval α).Ensures cells s P := ⟨_, _, rfl, h⟩

/-- What follows a part may use what the part ensures. -/
theorem Ensures.bind {x : Eval α} {f : α → Eval β} {P : α → Session → Prop}
    {Q : β → Session → Prop} (hx : x.Ensures cells s P)
    (hf : ∀ a s', P a s' → (f a).Ensures cells s' Q) : (x >>= f).Ensures cells s Q := by
  obtain ⟨a, s', hxa, ha⟩ := hx
  obtain ⟨b, s'', hfb, hb⟩ := hf a s' ha
  refine ⟨b, s'', ?_, hb⟩
  rw [bind_apply, hxa]
  exact hfb

end Eval

/-! ### Joint edits -/

/-- One more edit, where the match that it is for is found. -/
theorem Matcher.editJointly_succ_apply {m : Matcher} {edit : Nat → Value → Eval Value} {n : Nat}
    {focus : Value} {found : Match} {t : Session}
    (h : (m focus cells s).1.nth n cells (m focus cells s).2 = (.ok (some found), t)) :
    editJointly m edit (n + 1) focus cells s =
      (do
        let new ← edit n found.value
        let edited ← found.replace new
        editJointly m edit n edited) cells t := by
  rw [editJointly, Eval.bind_apply, Eval.lift_apply]
  simp only []
  rw [Eval.bind_apply, h]

/-- An edit whose match is gone is left out. -/
theorem Matcher.editJointly_succ_apply_none {m : Matcher} {edit : Nat → Value → Eval Value} {n : Nat}
    {focus : Value} {t : Session}
    (h : (m focus cells s).1.nth n cells (m focus cells s).2 = (.ok none, t)) :
    editJointly m edit (n + 1) focus cells s = editJointly m edit n focus cells t := by
  rw [editJointly, Eval.bind_apply, Eval.lift_apply]
  simp only []
  rw [Eval.bind_apply, h]

/-- After the matches have been collected, the edit of all of them is the joint edit. -/
theorem Pattern.editAll_apply {p : Pattern} {edit : Value → Eval Value} {focus : Value}
    {found : List Match} {t : Session}
    (h : (p.matcher focus cells s).1.collect cells (p.matcher focus cells s).2 = (.ok found, t)) :
    p.editAll focus edit cells s =
      Matcher.editJointly p.matcher (fun _ => edit) found.length focus cells t := by
  rw [editAll, Eval.bind_apply, Eval.lift_apply, matchesIn]
  simp only []
  rw [Eval.bind_apply, h]

end DataExpr
