import DataExpr.Pattern.Compile
import DataExpr.Proofs.Matcher.Nesting

/-!
# Flattening keeps the meaning

Compiling joins nested alternatives to one alternative and nested sequences to one sequence.
`Expr.binary` does not: it gives every `|` a choice of two branches and every juxtaposition a
sequence of two steps, and otherwise it is the same translation.  `matchesIn_compile` says that
nothing can tell the two apart: they fail with the same error, or the two patterns have the same
matches in every value.

The induction goes along the tree with operands on the one side, since only these know which
branches or steps they would add to what stands around them (`Operand.branches_asBranches`,
`Operand.withinAll_asSteps`).
-/

namespace DataExpr

/-! ### Operands in a longer alternative or sequence -/

namespace Operand

open Matcher (withinAll)

/-- The branches of an operand find what the operand finds as a single branch. -/
theorem branches_asBranches (o : Operand) (focus : Value) :
    Matcher.branches (o.asBranches.map Pattern.matcher) focus =
      Matcher.branches [o.pattern.matcher] focus := by
  cases o with
  | branches ps =>
    rw [pattern, Pattern.matcher, Pattern.matchers_eq_map, Matcher.branches_choice]
    rfl
  | _ => rfl

/-- The steps of an operand find inside given matches what the operand finds as a single step. -/
theorem withinAll_asSteps (o : Operand) (found : Matches) :
    withinAll (o.asSteps.map Pattern.matcher) found = o.pattern.matcher.within found := by
  cases o with
  | steps ps =>
    rw [pattern, Pattern.matcher, Pattern.matchers_eq_map, Matcher.within_sequence]
    rfl
  | _ => rfl

/-- An alternative of all branches of two operands is one of the two. -/
theorem matcher_branches (l r : Operand) :
    (branches (l.asBranches ++ r.asBranches)).pattern.matcher =
      Matcher.choice [l.pattern.matcher, r.pattern.matcher] := by
  have hbranches : ∀ focus,
      Matcher.branches ((l.asBranches ++ r.asBranches).map Pattern.matcher) focus =
        Matcher.branches ([l.pattern.matcher] ++ [r.pattern.matcher]) focus := by
    intro focus
    rw [List.map_append, Matcher.branches_append, branches_asBranches, branches_asBranches,
      ← Matcher.branches_append]
  rw [pattern, Pattern.matcher, Pattern.matchers_eq_map, Matcher.choice_eq, Matcher.choice_eq]
  exact funext fun focus => congrArg pure (hbranches focus)

/-- A sequence of all steps of two operands is one of the two. -/
theorem matcher_steps (l r : Operand) :
    (steps (l.asSteps ++ r.asSteps)).pattern.matcher =
      Matcher.sequence [l.pattern.matcher, r.pattern.matcher] := by
  have hsteps : ∀ found,
      withinAll ((l.asSteps ++ r.asSteps).map Pattern.matcher) found =
        withinAll [l.pattern.matcher, r.pattern.matcher] found := by
    intro found
    rw [List.map_append, Matcher.withinAll_append, withinAll_asSteps, withinAll_asSteps]
    rfl
  rw [pattern, Pattern.matcher, Pattern.matchers_eq_map, Matcher.sequence_eq, Matcher.sequence_eq]
  exact funext fun focus => congrArg pure (hsteps (Matches.whole focus))

end Operand

namespace Expr

/-! ### Compilations that agree -/

namespace Compiled

variable {α α' β β' : Type} {R : α → β → Prop} {S : α' → β' → Prop}

/-- Both fail with the same error, or both succeed and what they give is related. -/
def Agree (R : α → β → Prop) : Compiled α → Compiled β → Prop
  | .ok a, .ok b => R a b
  | .error e, .error e' => e = e'
  | _, _ => False

theorem Agree.refl (x : Compiled α) : Agree (· = ·) x x := by
  cases x <;> rfl

/-- Compilations that go on in related ways agree to their ends. -/
theorem Agree.bind {x : Compiled α} {y : Compiled β} {f : α → Compiled α'} {g : β → Compiled β'}
    (h : Agree R x y) (hf : ∀ a b, R a b → Agree S (f a) (g b)) : Agree S (x >>= f) (y >>= g) := by
  cases x with
  | error e =>
    cases y with
    | error e' => exact h
    | ok b => exact h.elim
  | ok a =>
    cases y with
    | error e' => exact h.elim
    | ok b => exact hf a b h

theorem Agree.map_left {x : Compiled α} {y : Compiled β} {T : α' → β → Prop} {f : α → α'}
    (h : Agree R x y) (hf : ∀ a b, R a b → T (f a) b) : Agree T (f <$> x) y := by
  cases x with
  | error e =>
    cases y with
    | error e' => exact h
    | ok b => exact h.elim
  | ok a =>
    cases y with
    | error e' => exact h.elim
    | ok b => exact hf a b h

end Compiled

/-! ### The translation without flattening -/

mutual

/-- The pattern of a tree with two branches for each `|` and two steps for each juxtaposition. -/
def binary (items : List Item) : Expr → Compiled Pattern
  | ⟨.alt l r, _⟩ => do return .alt [← binary items l, ← binary items r]
  | ⟨.seq l r, _⟩ => do return .seq [← binary items l, ← binary items r]
  | ⟨.lookahead e, _⟩ => return .lookahead (← binary items e)
  | ⟨.cut e, _⟩ => return (← binary items e).cut
  | ⟨.object es, _⟩ => do
    let (fields, rest) ← binaryObject items es false
    return .object fields rest
  | ⟨.array es, _⟩ => do
    let (elements, rest) ← binaryArray items es
    return .array elements rest
  | ⟨.key k optional, span⟩ => keyPattern items k optional span
  | ⟨.index i optional, span⟩ => return .index (← number items i "an index" span) optional
  | ⟨.slice a b, span⟩ => do
    let start ← number? items a "a slice bound" span
    let stop ← number? items b "a slice bound" span
    return .slice start stop
  | ⟨.spread, _⟩ => return .spread
  | ⟨.descent, _⟩ => return .descend 1
  | ⟨.self, _⟩ => return .self
  | ⟨.literal l, span⟩ => literalPattern items l span

/-- The fields and the rest of an object pattern, as `objectParts` finds them. -/
def binaryObject (items : List Item) :
    List ObjectEntry → Bool → Compiled (List (Field Pattern) × Option Pattern)
  | [], _ => return ([], none)
  | .field k optional e :: es, hasRest => do
    let key ← fieldKey items k e.span
    let p ← binary items e
    let (fields, rest) ← binaryObject items es hasRest
    return (⟨key, optional, p⟩ :: fields, rest)
  | .rest e :: es, hasRest => do
    if hasRest then throw ⟨.duplicateRest, e.span⟩
    let p ← binary items e
    let (fields, _) ← binaryObject items es true
    return (fields, some p)

/-- The items and the rest of an array pattern, as `arrayParts` finds them. -/
def binaryArray (items : List Item) : List ArrayEntry → Compiled (List Pattern × Option Pattern)
  | [] => return ([], none)
  | .item e :: es => do
    let p ← binary items e
    let (ps, rest) ← binaryArray items es
    return (p :: ps, rest)
  | .rest e :: es => do
    if !es.isEmpty then throw ⟨.restNotLast, e.span⟩
    return ([], some (← binary items e))

end

open Compiled (Agree)

/-- An operand that means what a pattern means. -/
def SameMeaning (o : Operand) (p : Pattern) : Prop := o.pattern.matcher = p.matcher

theorem agree_atom (x : Compiled Pattern) :
    Agree SameMeaning (do return .atom (← x)) x := by
  cases x <;> rfl

mutual

/-- An operand and the pattern without flattening have one meaning. -/
theorem agree_operand (items : List Item) :
    ∀ e : Expr, Agree SameMeaning (operand items e) (binary items e)
  | ⟨.alt l r, _⟩ => by
    rw [operand, binary]
    refine (agree_operand items l).bind fun ol pl hl => ?_
    refine (agree_operand items r).bind fun or pr hr => ?_
    show _ = Matcher.choice [pl.matcher, pr.matcher]
    rw [← hl, ← hr]
    exact Operand.matcher_branches ol or
  | ⟨.seq l r, _⟩ => by
    rw [operand, binary]
    refine (agree_operand items l).bind fun ol pl hl => ?_
    refine (agree_operand items r).bind fun or pr hr => ?_
    show _ = Matcher.sequence [pl.matcher, pr.matcher]
    rw [← hl, ← hr]
    exact Operand.matcher_steps ol or
  | ⟨.lookahead e, _⟩ => by
    rw [operand, binary]
    refine (agree_operand items e).bind fun o p h => ?_
    exact congrArg Matcher.lookahead h
  | ⟨.cut e, _⟩ => by
    rw [operand, binary]
    refine (agree_operand items e).bind fun o p h => ?_
    exact congrArg (Matcher.limit · 1) h
  | ⟨.object es, _⟩ => by
    rw [operand, binary]
    refine (agree_objectParts items es false).bind fun a b h => ?_
    show Matcher.object _ _ = Matcher.object _ _
    rw [h.1, h.2]
  | ⟨.array es, _⟩ => by
    rw [operand, binary]
    refine (agree_arrayParts items es).bind fun a b h => ?_
    show Matcher.array _ _ = Matcher.array _ _
    rw [h.1, h.2]
  | ⟨.key k optional, span⟩ => by
    rw [operand, binary]
    exact agree_atom _
  | ⟨.index i optional, span⟩ => by
    rw [operand, binary]
    refine (Agree.refl _).bind fun n m h => ?_
    exact congrArg (Pattern.matcher <| .index · optional) h
  | ⟨.slice a b, span⟩ => by
    rw [operand, binary]
    refine (Agree.refl _).bind fun start start' hstart => ?_
    refine (Agree.refl _).bind fun stop stop' hstop => ?_
    rw [hstart, hstop]
    rfl
  | ⟨.spread, _⟩ => by rw [operand, binary]; rfl
  | ⟨.descent, _⟩ => by rw [operand, binary]; rfl
  | ⟨.self, _⟩ => by rw [operand, binary]; rfl
  | ⟨.literal l, span⟩ => by
    rw [operand, binary]
    exact agree_atom _

/-- The parts of an object pattern have one meaning either way. -/
theorem agree_objectParts (items : List Item) : ∀ (es : List ObjectEntry) (hasRest : Bool),
    Agree (fun a b => Pattern.fieldMatchers a.1 = Pattern.fieldMatchers b.1 ∧
      Pattern.restMatcher a.2 = Pattern.restMatcher b.2)
      (objectParts items es hasRest) (binaryObject items es hasRest)
  | [], _ => by rw [objectParts, binaryObject]; exact ⟨rfl, rfl⟩
  | .field k optional e :: es, hasRest => by
    rw [objectParts, binaryObject]
    refine (Agree.refl _).bind fun key key' hkey => ?_
    refine (agree_operand items e).bind fun o p h => ?_
    refine (agree_objectParts items es hasRest).bind fun a b hab => ?_
    refine ⟨?_, hab.2⟩
    show _ :: _ = _ :: _
    rw [hab.1, hkey, h]
  | .rest e :: es, true => by rw [objectParts, binaryObject]; rfl
  | .rest e :: es, false => by
    rw [objectParts, binaryObject]
    refine (agree_operand items e).bind fun o p h => ?_
    refine (agree_objectParts items es true).bind fun a b hab => ?_
    exact ⟨hab.1, congrArg some h⟩

/-- The parts of an array pattern have one meaning either way. -/
theorem agree_arrayParts (items : List Item) : ∀ es : List ArrayEntry,
    Agree (fun a b => Pattern.matchers a.1 = Pattern.matchers b.1 ∧
      Pattern.restMatcher a.2 = Pattern.restMatcher b.2)
      (arrayParts items es) (binaryArray items es)
  | [] => by rw [arrayParts, binaryArray]; exact ⟨rfl, rfl⟩
  | .item e :: es => by
    rw [arrayParts, binaryArray]
    refine (agree_operand items e).bind fun o p h => ?_
    refine (agree_arrayParts items es).bind fun a b hab => ?_
    refine ⟨?_, hab.2⟩
    show _ :: _ = _ :: _
    rw [hab.1, h]
  | .rest e :: x :: es => by rw [arrayParts, binaryArray]; rfl
  | [.rest e] => by
    rw [arrayParts, binaryArray]
    refine (agree_operand items e).bind fun o p h => ?_
    exact ⟨rfl, congrArg some h⟩

end

/-- Flattening nested alternatives and sequences changes neither the error nor the meaning:
compiling fails as the translation without flattening does, or the two patterns have the same
matches in every value, errors and replacements included. -/
theorem matchesIn_compile (e : Expr) (items : List Item) :
    Agree (fun p q => ∀ focus, p.matchesIn focus = q.matchesIn focus)
      (e.compile items) (e.binary items) := by
  refine (agree_operand items e).map_left fun o p (h : o.pattern.matcher = p.matcher) => ?_
  intro focus
  rw [Pattern.matchesIn, Pattern.matchesIn, h]

end Expr

end DataExpr
