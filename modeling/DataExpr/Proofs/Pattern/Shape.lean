import DataExpr.Proofs.Expr.Reads
import DataExpr.Proofs.Pattern.Flattening

/-!
# Patterns of trees of one shape

The spans of a tree matter to compiling only where an error is reported.  Two trees of one shape are
therefore compiled to the same pattern, or both fail with errors of one kind
(`Expr.alike_operand`): `Compiled.Alike` is agreement of two compilations up to the place of an
error.
-/

namespace DataExpr.Expr

/-! ### Agreement up to places -/

namespace Compiled

variable {α α' β β' : Type} {R : α → β → Prop} {S : α' → β' → Prop}

/-- Both fail with errors of one kind, or both succeed and what they give is related. -/
def Alike (R : α → β → Prop) : Compiled α → Compiled β → Prop
  | .ok a, .ok b => R a b
  | .error e, .error e' => e.kind = e'.kind
  | _, _ => False

theorem Alike.refl (x : Compiled α) : Alike (· = ·) x x := by
  cases x <;> rfl

/-- Compilations that go on in related ways are alike to their ends. -/
theorem Alike.bind {x : Compiled α} {y : Compiled β} {f : α → Compiled α'} {g : β → Compiled β'}
    (h : Alike R x y) (hf : ∀ a b, R a b → Alike S (f a) (g b)) : Alike S (x >>= f) (y >>= g) := by
  cases x with
  | error e =>
    cases y with
    | error e' => exact h
    | ok b => exact h.elim
  | ok a =>
    cases y with
    | error e' => exact h.elim
    | ok b => exact hf a b h

/-- Compilations that give the same and go on in alike ways. -/
theorem Alike.bind_eq {x y : Compiled α} {f : α → Compiled α'} {g : α → Compiled β'}
    (h : Alike (· = ·) x y) (hf : ∀ a, Alike S (f a) (g a)) : Alike S (x >>= f) (y >>= g) :=
  h.bind fun a _ hab => hab ▸ hf a

/-- What is alike to a success is the same success. -/
theorem Alike.eq_ok {x : Compiled α} {a : α} (h : Alike (· = ·) (.ok a) x) : x = .ok a := by
  cases x with
  | error e => exact h.elim
  | ok b => exact congrArg Except.ok (Eq.symm h)

end Compiled

open Compiled (Alike)

variable (items : List Item) {s s' : Span}

/-! ### Placeholders and literals -/

theorem alike_itemAt (i : UInt64) : Alike (· = ·) (itemAt items i s) (itemAt items i s') := by
  unfold itemAt
  cases items[i.toNat]? <;> rfl

theorem alike_keyPattern (key : Literal) (optional : Bool) :
    Alike (· = ·) (keyPattern items key optional s) (keyPattern items key optional s') := by
  cases key with
  | placeholder i =>
    refine (alike_itemAt items i).bind_eq fun item => ?_
    split <;> rfl
  | _ => rfl

theorem alike_fieldKey (key : Literal) :
    Alike (· = ·) (fieldKey items key s) (fieldKey items key s') := by
  cases key with
  | placeholder i =>
    refine (alike_itemAt items i).bind_eq fun item => ?_
    split <;> rfl
  | _ => rfl

theorem alike_number (l : Literal) (position : String) :
    Alike (· = ·) (number items l position s) (number items l position s') := by
  cases l with
  | placeholder i =>
    refine (alike_itemAt items i).bind_eq fun item => ?_
    split <;> rfl
  | _ => rfl

theorem alike_number? (l : Option Literal) (position : String) :
    Alike (· = ·) (number? items l position s) (number? items l position s') := by
  cases l with
  | none => rfl
  | some l => exact (alike_number items l position).bind_eq fun n => rfl

theorem alike_literalPattern (l : Literal) :
    Alike (· = ·) (literalPattern items l s) (literalPattern items l s') := by
  cases l with
  | placeholder i => exact (alike_itemAt items i).bind_eq fun item => rfl
  | _ => rfl

/-! ### Trees -/

mutual

/-- Trees of one shape are compiled to one operand. -/
theorem alike_operand : ∀ e e' : Expr, e.sameShape e' = true →
    Alike (· = ·) (operand items e) (operand items e')
  | ⟨k, s⟩, ⟨k', s'⟩, h => by
    rw [sameShape_mk] at h
    -- Nodes of different sorts do not look alike.
    cases k <;> cases k' <;> try simp [Kind.agree] at h
    all_goals rw [operand, operand]
    case alt.alt l r l' r' =>
      refine (alike_operand l l' h.1).bind_eq fun left => ?_
      exact (alike_operand r r' h.2).bind_eq fun right => rfl
    case seq.seq l r l' r' =>
      refine (alike_operand l l' h.1).bind_eq fun left => ?_
      exact (alike_operand r r' h.2).bind_eq fun right => rfl
    case lookahead.lookahead e e' => exact (alike_operand e e' h).bind_eq fun o => rfl
    case cut.cut e e' => exact (alike_operand e e' h).bind_eq fun o => rfl
    case object.object es es' =>
      exact (alike_objectParts es es' false h).bind_eq fun parts => rfl
    case array.array es es' => exact (alike_arrayParts es es' h).bind_eq fun parts => rfl
    case key.key k optional k' optional' =>
      rw [h.1, h.2]
      exact (alike_keyPattern items k' optional').bind_eq fun p => rfl
    case index.index i optional i' optional' =>
      rw [h.1, h.2]
      exact (alike_number items i' "an index").bind_eq fun n => rfl
    case slice.slice a b a' b' =>
      rw [h.1, h.2]
      refine (alike_number? items a' "a slice bound").bind_eq fun start => ?_
      exact (alike_number? items b' "a slice bound").bind_eq fun stop => rfl
    case literal.literal l l' =>
      rw [h]
      exact (alike_literalPattern items l').bind_eq fun p => rfl
    all_goals rfl

/-- Entries of object patterns of one shape are compiled to one list of fields and one rest. -/
theorem alike_objectParts : ∀ (es es' : List ObjectEntry) (hasRest : Bool),
    agreeObject (fun _ _ => true) es es' = true →
    Alike (· = ·) (objectParts items es hasRest) (objectParts items es' hasRest)
  | [], [], _, _ => Alike.refl _
  | [], _ :: _, _, h => by simp [agreeObject] at h
  | _ :: _, [], _, h => by simp [agreeObject] at h
  | .field .. :: _, .rest _ :: _, _, h => by simp [agreeObject] at h
  | .rest _ :: _, .field .. :: _, _, h => by simp [agreeObject] at h
  | .field k o e :: es, .field k' o' e' :: es', hasRest, h => by
    simp only [agreeObject, Bool.and_eq_true, beq_iff_eq] at h
    obtain ⟨⟨⟨rfl, rfl⟩, he⟩, hes⟩ := h
    rw [objectParts, objectParts]
    refine (alike_fieldKey items k).bind_eq fun key => ?_
    refine (alike_operand e e' he).bind_eq fun o => ?_
    exact (alike_objectParts es es' hasRest hes).bind_eq fun parts => rfl
  | .rest e :: es, .rest e' :: es', true, _ => by
    rw [objectParts, objectParts]
    rfl
  | .rest e :: es, .rest e' :: es', false, h => by
    simp only [agreeObject, Bool.and_eq_true] at h
    rw [objectParts, objectParts]
    refine (alike_operand e e' h.1).bind_eq fun o => ?_
    exact (alike_objectParts es es' true h.2).bind_eq fun parts => rfl

/-- Entries of array patterns of one shape are compiled to one list of items and one rest. -/
theorem alike_arrayParts : ∀ es es' : List ArrayEntry,
    agreeArray (fun _ _ => true) es es' = true →
    Alike (· = ·) (arrayParts items es) (arrayParts items es')
  | [], [], _ => Alike.refl _
  | [], _ :: _, h => by simp [agreeArray] at h
  | _ :: _, [], h => by simp [agreeArray] at h
  | .item _ :: _, .rest _ :: _, h => by simp [agreeArray] at h
  | .rest _ :: _, .item _ :: _, h => by simp [agreeArray] at h
  | .item e :: es, .item e' :: es', h => by
    simp only [agreeArray, Bool.and_eq_true] at h
    rw [arrayParts, arrayParts]
    refine (alike_operand e e' h.1).bind_eq fun o => ?_
    exact (alike_arrayParts es es' h.2).bind_eq fun parts => rfl
  | [.rest _], .rest _ :: _ :: _, h => by simp [agreeArray] at h
  | .rest _ :: _ :: _, [.rest _], h => by simp [agreeArray] at h
  | .rest e :: x :: es, .rest e' :: x' :: es', _ => by
    rw [arrayParts, arrayParts]
    rfl
  | [.rest e], [.rest e'], h => by
    simp only [agreeArray, Bool.and_eq_true] at h
    rw [arrayParts, arrayParts]
    exact (alike_operand e e' h.1).bind_eq fun o => rfl

end

/-- A tree of the shape of one that compiles is compiled to the same pattern. -/
theorem compile_of_sameShape {e e' : Expr} {p : Pattern} (h : e.sameShape e' = true)
    (hp : e.compile items = .ok p) : e'.compile items = .ok p := by
  have halike : Alike (· = ·) (e.compile items) (e'.compile items) :=
    (alike_operand items e e' h).bind_eq fun o => rfl
  rw [hp] at halike
  exact halike.eq_ok

end DataExpr.Expr
