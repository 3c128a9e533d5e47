import DataExpr.Proofs.Pattern.Shape

/-!
# Splicing is substitution

A placeholder that stands for a pattern of the host may be replaced by an expression for that
pattern: `Expr.substitute` puts a tree in the place of a placeholder, and `compile_substitute` says
that the two trees are compiled to patterns with the same matches, or fail with errors of one kind.
The patterns themselves differ, since a spliced pattern stays one part while a substituted tree is
flattened into what stands around it.

The tree that is put in must stand for the same pattern whatever the items are, so it has no
placeholders of its own (`Expr.isClosed`, `operand_of_isClosed`).  The placeholder may also stand
where a key or a number is needed: there both trees are refused.
-/

namespace DataExpr

/-- Whether the literal is no placeholder. -/
def Literal.isClosed : Literal → Bool
  | placeholder _ => false
  | _ => true

namespace Expr

open Compiled (Alike)

/-! ### Trees without placeholders -/

mutual

/-- Whether no literal of the tree is a placeholder. -/
def isClosed : Expr → Bool
  | ⟨.alt l r, _⟩ => isClosed l && isClosed r
  | ⟨.seq l r, _⟩ => isClosed l && isClosed r
  | ⟨.lookahead e, _⟩ => isClosed e
  | ⟨.cut e, _⟩ => isClosed e
  | ⟨.object es, _⟩ => isClosedObject es
  | ⟨.array es, _⟩ => isClosedArray es
  | ⟨.key k _, _⟩ => k.isClosed
  | ⟨.index i _, _⟩ => i.isClosed
  | ⟨.slice a b, _⟩ => a.all Literal.isClosed && b.all Literal.isClosed
  | ⟨.spread, _⟩ => true
  | ⟨.descent, _⟩ => true
  | ⟨.self, _⟩ => true
  | ⟨.literal l, _⟩ => l.isClosed

/-- Whether no literal of the entries of an object pattern is a placeholder. -/
def isClosedObject : List ObjectEntry → Bool
  | [] => true
  | .field k _ e :: es => k.isClosed && isClosed e && isClosedObject es
  | .rest e :: es => isClosed e && isClosedObject es

/-- Whether no literal of the entries of an array pattern is a placeholder. -/
def isClosedArray : List ArrayEntry → Bool
  | [] => true
  | .item e :: es => isClosed e && isClosedArray es
  | .rest e :: es => isClosed e && isClosedArray es

end

section Closed

variable (items items' : List Item) {span : Span}

theorem keyPattern_of_isClosed {k : Literal} (h : k.isClosed = true) (optional : Bool) :
    keyPattern items k optional span = keyPattern items' k optional span := by
  cases k with
  | placeholder i => exact absurd h Bool.false_ne_true
  | _ => rfl

theorem fieldKey_of_isClosed {k : Literal} (h : k.isClosed = true) :
    fieldKey items k span = fieldKey items' k span := by
  cases k with
  | placeholder i => exact absurd h Bool.false_ne_true
  | _ => rfl

theorem number_of_isClosed {l : Literal} (h : l.isClosed = true) (position : String) :
    number items l position span = number items' l position span := by
  cases l with
  | placeholder i => exact absurd h Bool.false_ne_true
  | _ => rfl

theorem number?_of_isClosed {l : Option Literal} (h : l.all Literal.isClosed = true)
    (position : String) : number? items l position span = number? items' l position span := by
  cases l with
  | none => rfl
  | some l => rw [number?, number?, number_of_isClosed items items' h]

theorem literalPattern_of_isClosed {l : Literal} (h : l.isClosed = true) :
    literalPattern items l span = literalPattern items' l span := by
  cases l with
  | placeholder i => exact absurd h Bool.false_ne_true
  | _ => rfl

mutual

/-- The items do not matter to a tree without placeholders. -/
theorem operand_of_isClosed : ∀ e : Expr, e.isClosed = true → operand items e = operand items' e
  | ⟨.alt l r, _⟩, h => by
    rw [isClosed, Bool.and_eq_true] at h
    rw [operand, operand, operand_of_isClosed l h.1, operand_of_isClosed r h.2]
  | ⟨.seq l r, _⟩, h => by
    rw [isClosed, Bool.and_eq_true] at h
    rw [operand, operand, operand_of_isClosed l h.1, operand_of_isClosed r h.2]
  | ⟨.lookahead e, _⟩, h => by
    rw [isClosed] at h
    rw [operand, operand, operand_of_isClosed e h]
  | ⟨.cut e, _⟩, h => by
    rw [isClosed] at h
    rw [operand, operand, operand_of_isClosed e h]
  | ⟨.object es, _⟩, h => by
    rw [isClosed] at h
    rw [operand, operand, objectParts_of_isClosed es false h]
  | ⟨.array es, _⟩, h => by
    rw [isClosed] at h
    rw [operand, operand, arrayParts_of_isClosed es h]
  | ⟨.key k optional, span⟩, h => by
    rw [isClosed] at h
    rw [operand, operand, keyPattern_of_isClosed items items' h]
  | ⟨.index i optional, span⟩, h => by
    rw [isClosed] at h
    rw [operand, operand, number_of_isClosed items items' h]
  | ⟨.slice a b, span⟩, h => by
    rw [isClosed, Bool.and_eq_true] at h
    rw [operand, operand, number?_of_isClosed items items' h.1, number?_of_isClosed items items' h.2]
  | ⟨.spread, _⟩, _ => by rw [operand, operand]
  | ⟨.descent, _⟩, _ => by rw [operand, operand]
  | ⟨.self, _⟩, _ => by rw [operand, operand]
  | ⟨.literal l, span⟩, h => by
    rw [isClosed] at h
    rw [operand, operand, literalPattern_of_isClosed items items' h]

theorem objectParts_of_isClosed : ∀ (es : List ObjectEntry) (hasRest : Bool),
    isClosedObject es = true → objectParts items es hasRest = objectParts items' es hasRest
  | [], _, _ => by rw [objectParts, objectParts]
  | .field k optional e :: es, hasRest, h => by
    rw [isClosedObject, Bool.and_eq_true, Bool.and_eq_true] at h
    rw [objectParts, objectParts, fieldKey_of_isClosed items items' h.1.1,
      operand_of_isClosed e h.1.2, objectParts_of_isClosed es hasRest h.2]
  | .rest e :: es, hasRest, h => by
    rw [isClosedObject, Bool.and_eq_true] at h
    rw [objectParts, objectParts, operand_of_isClosed e h.1, objectParts_of_isClosed es true h.2]

theorem arrayParts_of_isClosed : ∀ es : List ArrayEntry,
    isClosedArray es = true → arrayParts items es = arrayParts items' es
  | [], _ => by rw [arrayParts, arrayParts]
  | .item e :: es, h => by
    rw [isClosedArray, Bool.and_eq_true] at h
    rw [arrayParts, arrayParts, operand_of_isClosed e h.1, arrayParts_of_isClosed es h.2]
  | .rest e :: es, h => by
    rw [isClosedArray, Bool.and_eq_true] at h
    rw [arrayParts, arrayParts, operand_of_isClosed e h.1]

end

end Closed

/-! ### Substitution -/

mutual

/-- The tree with `t` in the place of every placeholder `n` that is a whole expression. -/
def substitute (n : UInt64) (t : Expr) : Expr → Expr
  | ⟨.alt l r, span⟩ => ⟨.alt (substitute n t l) (substitute n t r), span⟩
  | ⟨.seq l r, span⟩ => ⟨.seq (substitute n t l) (substitute n t r), span⟩
  | ⟨.lookahead e, span⟩ => ⟨.lookahead (substitute n t e), span⟩
  | ⟨.cut e, span⟩ => ⟨.cut (substitute n t e), span⟩
  | ⟨.object es, span⟩ => ⟨.object (substituteObject n t es), span⟩
  | ⟨.array es, span⟩ => ⟨.array (substituteArray n t es), span⟩
  | ⟨.key k optional, span⟩ => ⟨.key k optional, span⟩
  | ⟨.index i optional, span⟩ => ⟨.index i optional, span⟩
  | ⟨.slice a b, span⟩ => ⟨.slice a b, span⟩
  | ⟨.spread, span⟩ => ⟨.spread, span⟩
  | ⟨.descent, span⟩ => ⟨.descent, span⟩
  | ⟨.self, span⟩ => ⟨.self, span⟩
  | ⟨.literal l, span⟩ => if l = .placeholder n then t else ⟨.literal l, span⟩

/-- The entries of an object pattern after the substitution. -/
def substituteObject (n : UInt64) (t : Expr) : List ObjectEntry → List ObjectEntry
  | [] => []
  | .field k optional e :: es => .field k optional (substitute n t e) :: substituteObject n t es
  | .rest e :: es => .rest (substitute n t e) :: substituteObject n t es

/-- The entries of an array pattern after the substitution. -/
def substituteArray (n : UInt64) (t : Expr) : List ArrayEntry → List ArrayEntry
  | [] => []
  | .item e :: es => .item (substitute n t e) :: substituteArray n t es
  | .rest e :: es => .rest (substitute n t e) :: substituteArray n t es

end

theorem isEmpty_substituteArray (n : UInt64) (t : Expr) (es : List ArrayEntry) :
    (substituteArray n t es).isEmpty = es.isEmpty := by
  cases es with
  | nil => rfl
  | cons x es => cases x <;> rfl

/-- Two operands that mean the same. -/
def SameOperand (o o' : Operand) : Prop := o.pattern.matcher = o'.pattern.matcher

/-- Whether the tree by itself means what the placeholder means. -/
def StandsFor (items : List Item) (n : UInt64) (t : Expr) : Prop := ∀ span,
  Alike SameOperand (operand items ⟨.literal (.placeholder n), span⟩) (operand items t)

section Substitution

variable {items : List Item} {n : UInt64} {t : Expr}

/-- An atom is alike to itself, wherever it comes from. -/
theorem alike_atom (x : Compiled Pattern) :
    Alike SameOperand (do return .atom (← x)) (do return .atom (← x)) :=
  (Alike.refl x).bind_eq fun _ => rfl

/-- A literal by itself, which may be the placeholder. -/
theorem alike_literal (ht : StandsFor items n t) (l : Literal) (span : Span) :
    Alike SameOperand (operand items ⟨.literal l, span⟩)
      (operand items (substitute n t ⟨.literal l, span⟩)) := by
  rw [substitute]
  split
  · rename_i hl
    rw [hl]
    exact ht span
  · rw [operand]
    exact alike_atom _

mutual

/-- A tree that stands for a placeholder may be put in its place. -/
theorem alike_substitute (ht : StandsFor items n t) :
    ∀ e : Expr, Alike SameOperand (operand items e) (operand items (substitute n t e))
  | ⟨.alt l r, _⟩ => by
    rw [substitute, operand, operand]
    refine (alike_substitute ht l).bind fun ol ol' hl => ?_
    refine (alike_substitute ht r).bind fun or or' hr => ?_
    show Pattern.matcher _ = Pattern.matcher _
    rw [Operand.matcher_branches, Operand.matcher_branches, hl, hr]
  | ⟨.seq l r, _⟩ => by
    rw [substitute, operand, operand]
    refine (alike_substitute ht l).bind fun ol ol' hl => ?_
    refine (alike_substitute ht r).bind fun or or' hr => ?_
    show Pattern.matcher _ = Pattern.matcher _
    rw [Operand.matcher_steps, Operand.matcher_steps, hl, hr]
  | ⟨.lookahead e, _⟩ => by
    rw [substitute, operand, operand]
    exact (alike_substitute ht e).bind fun o o' h => congrArg Matcher.lookahead h
  | ⟨.cut e, _⟩ => by
    rw [substitute, operand, operand]
    exact (alike_substitute ht e).bind fun o o' h => congrArg (Matcher.limit · 1) h
  | ⟨.object es, _⟩ => by
    rw [substitute, operand, operand]
    refine (alike_substituteObject ht es false).bind fun a b h => ?_
    show Matcher.object _ _ = Matcher.object _ _
    rw [h.1, h.2]
  | ⟨.array es, _⟩ => by
    rw [substitute, operand, operand]
    refine (alike_substituteArray ht es).bind fun a b h => ?_
    show Matcher.array _ _ = Matcher.array _ _
    rw [h.1, h.2]
  | ⟨.key k optional, span⟩ => by
    rw [substitute, operand]
    exact alike_atom _
  | ⟨.index i optional, span⟩ => by
    rw [substitute, operand]
    exact (Alike.refl _).bind_eq fun i => rfl
  | ⟨.slice a b, span⟩ => by
    rw [substitute, operand]
    exact (Alike.refl _).bind_eq fun start => (Alike.refl _).bind_eq fun stop => rfl
  | ⟨.spread, _⟩ => by
    rw [substitute, operand]
    rfl
  | ⟨.descent, _⟩ => by
    rw [substitute, operand]
    rfl
  | ⟨.self, _⟩ => by
    rw [substitute, operand]
    rfl
  | ⟨.literal l, span⟩ => alike_literal ht l span

theorem alike_substituteObject (ht : StandsFor items n t) :
    ∀ (es : List ObjectEntry) (hasRest : Bool),
      Alike (fun a b => Pattern.fieldMatchers a.1 = Pattern.fieldMatchers b.1 ∧
        Pattern.restMatcher a.2 = Pattern.restMatcher b.2)
        (objectParts items es hasRest) (objectParts items (substituteObject n t es) hasRest)
  | [], _ => by
    rw [substituteObject, objectParts]
    exact ⟨rfl, rfl⟩
  | .field k optional e :: es, hasRest => by
    rw [substituteObject, objectParts, objectParts]
    refine (alike_fieldKey items k).bind_eq fun key => ?_
    refine (alike_substitute ht e).bind fun o o' h => ?_
    refine (alike_substituteObject ht es hasRest).bind fun a b hab => ?_
    refine ⟨?_, hab.2⟩
    show _ :: _ = _ :: _
    rw [hab.1, h]
  | .rest e :: es, true => by
    rw [substituteObject, objectParts, objectParts]
    rfl
  | .rest e :: es, false => by
    rw [substituteObject, objectParts, objectParts]
    refine (alike_substitute ht e).bind fun o o' h => ?_
    refine (alike_substituteObject ht es true).bind fun a b hab => ?_
    exact ⟨hab.1, congrArg some h⟩

theorem alike_substituteArray (ht : StandsFor items n t) :
    ∀ es : List ArrayEntry,
      Alike (fun a b => Pattern.matchers a.1 = Pattern.matchers b.1 ∧
        Pattern.restMatcher a.2 = Pattern.restMatcher b.2)
        (arrayParts items es) (arrayParts items (substituteArray n t es))
  | [] => by
    rw [substituteArray, arrayParts]
    exact ⟨rfl, rfl⟩
  | .item e :: es => by
    rw [substituteArray, arrayParts, arrayParts]
    refine (alike_substitute ht e).bind fun o o' h => ?_
    refine (alike_substituteArray ht es).bind fun a b hab => ?_
    refine ⟨?_, hab.2⟩
    show _ :: _ = _ :: _
    rw [hab.1, h]
  | .rest e :: es => by
    rw [substituteArray, arrayParts, arrayParts, isEmpty_substituteArray]
    cases es with
    | nil => exact (alike_substitute ht e).bind fun o o' h => ⟨rfl, congrArg some h⟩
    | cons x es => rfl

end

/-- A tree without placeholders stands for the placeholder of its pattern. -/
theorem standsFor_pattern {p : Pattern} (ht : t.isClosed = true) (hp : t.compile [] = .ok p)
    (hitem : items[n.toNat]? = some (.pattern p)) : StandsFor items n t := by
  intro span
  rw [operand_of_isClosed items [] t ht, operand, literalPattern, itemAt, hitem]
  rw [compile] at hp
  cases ho : operand [] t with
  | error e =>
    rw [ho] at hp
    cases hp
  | ok o =>
    rw [ho] at hp
    cases hp
    rfl

end Substitution

/-- Putting the expression for a pattern in the place of a placeholder changes neither the kind of an
error nor the matches, errors and replacements included, if the item of the placeholder is that
pattern. -/
theorem compile_substitute (e t : Expr) (n : UInt64) (items : List Item) (p : Pattern)
    (ht : t.isClosed = true) (hp : t.compile [] = .ok p)
    (hitem : items[n.toNat]? = some (.pattern p)) :
    Alike (fun q q' => ∀ focus, q.matchesIn focus = q'.matchesIn focus)
      (e.compile items) ((substitute n t e).compile items) := by
  refine (alike_substitute (standsFor_pattern ht hp hitem) e).bind fun o o' h => ?_
  intro focus
  exact congrFun h focus

/-- The tree of `<0> .b`. -/
def splicedStep : Expr :=
  ⟨.seq ⟨.literal (.placeholder 0), .dummy⟩ ⟨.key (.ident "b") false, .dummy⟩, .dummy⟩

/-- The tree of `* .a`. -/
def eachStep : Expr := ⟨.seq ⟨.spread, .dummy⟩ ⟨.key (.ident "a") false, .dummy⟩, .dummy⟩

/-- With the pattern of `* .a` for its placeholder, `<0> .b` is a sequence in a sequence, and `* .a .b`
is one sequence; both have the same matches. -/
theorem compile_substitute_steps :
    eachStep.isClosed = true ∧ eachStep.compile [] = .ok (.seq [.spread, .key "a" false]) ∧
    splicedStep.compile [.pattern (.seq [.spread, .key "a" false])] =
      .ok (.seq [.seq [.spread, .key "a" false], .key "b" false]) ∧
    (substitute 0 eachStep splicedStep).compile [.pattern (.seq [.spread, .key "a" false])] =
      .ok (.seq [.spread, .key "a" false, .key "b" false]) ∧
    ∀ focus, (Pattern.seq [.seq [.spread, .key "a" false], .key "b" false]).matchesIn focus =
      (Pattern.seq [.spread, .key "a" false, .key "b" false]).matchesIn focus := by
  have hclosed : eachStep.isClosed = true := rfl
  have hcompile : eachStep.compile [] = .ok (.seq [.spread, .key "a" false]) := rfl
  have halike := compile_substitute splicedStep eachStep 0
    [.pattern (.seq [.spread, .key "a" false])] _ hclosed hcompile rfl
  exact ⟨hclosed, hcompile, rfl, rfl, halike⟩

end Expr

end DataExpr
