import DataExpr.Pattern
import DataExpr.Proofs.Matcher.ArrayShape

/-!
# List shapes are nested loops

A list shape looks at the elements of a list from left to right, in loops inside each other: for each
match of the first element it goes through the matches of the second one, and so on.  An error takes the
place of all the choices that would begin with the matches before it, and the loops go on after it.  A
match for one choice at every position rebuilds the list item by item.  `Pattern.array_nestedLoop` says
this of all list shapes and of all lists that have the right length for them.
-/

namespace DataExpr.Pattern

open Findings (Loops nestedLoop)
open Matcher (ListMatch)

/-- The pattern for the element at a position of a list: the one for that position, and after all of
these the rest. -/
def elementPattern (items : List Pattern) (rest : Option Pattern) (i : Nat) : Pattern :=
  (items[i]?.or rest).getD fail

/-- The matches in the elements of a list. -/
def elementMatches (items : List Pattern) (rest : Option Pattern) (values : List Value) :
    List (Run Matches) :=
  values.mapIdx fun i v => (elementPattern items rest i).matchesIn v

theorem elementMatches_cons (p : Pattern) (ps : List Pattern) (rest : Option Pattern) (v : Value)
    (vs : List Value) :
    elementMatches (p :: ps) rest (v :: vs) = p.matchesIn v :: elementMatches ps rest vs := by
  rw [elementMatches, List.mapIdx_cons]
  rfl

theorem elementMatches_nil (p : Pattern) (vs : List Value) :
    elementMatches [] (some p) vs = vs.map p.matchesIn := by
  refine List.ext_getElem? fun i => ?_
  rw [elementMatches, List.getElem?_mapIdx, List.getElem?_map]
  rfl

/-- Every element is matched by the pattern for its position. -/
theorem map_positions {items : List Pattern} {rest : Option Pattern} {values : List Value}
    (hlength : items.length ≤ values.length) (hexact : rest = none → values.length = items.length) :
    (Matcher.positions (items.map matcher) (rest.map matcher) values).map (fun p => p.1 p.2) =
      elementMatches items rest values := by
  induction items generalizing values with
  | nil =>
    cases rest with
    | none =>
      obtain rfl := List.length_eq_zero_iff.1 (hexact rfl)
      rfl
    | some p =>
      rw [elementMatches_nil]
      simp only [Matcher.positions, List.map_nil, List.zip_nil_left, List.nil_append,
        Option.map_some, List.length_nil, List.drop_zero, List.map_map]
      rfl
  | cons p ps ih =>
    cases values with
    | nil => cases hlength
    | cons v vs =>
      have hlength' : ps.length ≤ vs.length := Nat.le_of_succ_le_succ hlength
      have hexact' : rest = none → vs.length = ps.length := fun h => Nat.succ.inj (hexact h)
      rw [elementMatches_cons, ← ih hlength' hexact']
      simp only [Matcher.positions, List.map_cons, List.zip_cons_cons, List.length_cons,
        List.drop_succ_cons, List.cons_append]
      rfl

/-- In a list that is long enough, and of just that length if there is no rest, a list shape has the
matches of the nested loop over those of the elements.  Asked for all of them, it gives what the loops
give, errors in their places, with one match for each choice. -/
theorem array_nestedLoop {items : List Pattern} {rest : Option Pattern} {cells : Cells}
    {focus : Value} {node : Nat} {values : List Value}
    (hfocus : cells.resolve focus = .list node values) (hlength : items.length ≤ values.length)
    (hexact : rest = none → values.length = items.length) (s : Session) :
    (∃ combine : List Match → Run Match,
      (array items rest).matchesIn focus cells s =
        ((nestedLoop (elementMatches items rest values)).mapRun combine, s) ∧
      ∀ found cells t, ListMatch items.length found (combine found cells t).1) ∧
    ∀ t, ∃ choices, Loops cells (elementMatches items rest values) choices ∧
      List.Forall₂ (SameOutcome (ListMatch items.length)) choices
        (((array items rest).matchesIn focus cells s).1.toList cells t).1 := by
  have hfits : if (rest.map matcher).isSome then (items.map matcher).length ≤ values.length
      else values.length = (items.map matcher).length := by
    rw [Option.isSome_map, List.length_map]
    cases rest with
    | none => exact hexact rfl
    | some p => exact hlength
  have hmatches : (array items rest).matchesIn focus cells s =
      ((nestedLoop (elementMatches items rest values)).mapRun
        (Matcher.combineList items.length), s) := by
    rw [matchesIn, matcher, matchers_eq_map, restMatcher_eq_map, Matcher.array_apply hfocus hfits,
      map_positions hlength hexact, List.length_map]
  refine ⟨⟨_, hmatches, Matcher.listMatch_combineList items.length⟩, fun t => ?_⟩
  rw [hmatches]
  have hlists : Findings.Lists cells ((nestedLoop (elementMatches items rest values)).mapRun
      (Matcher.combineList items.length)) _ := Findings.lists_toList _ t
  obtain ⟨choices, hchoices, hitems⟩ := hlists.of_mapRun
  refine ⟨choices, Findings.loops_of_lists hchoices, hitems.imp fun i j hij => ?_⟩
  refine hij.imp ?_
  rintro found m ⟨s, rfl⟩
  exact Matcher.listMatch_combineList items.length found cells s

/-- The text is no list, which is an error for each item of the list before it; then the text itself is
found. -/
theorem array_nestedLoop_errors :
    let items : List Pattern := [spread]
    let rest : Option Pattern := some (alt [index 0 false, self])
    let values : List Value := [.list 1 [.int 1, .int 2], .str "x"]
    let focus : Value := .list 0 values
    let s : Session := ⟨2, #[]⟩
    Cells.none.resolve focus = .list 0 values ∧ items.length ≤ values.length ∧
    (rest = none → values.length = items.length) ∧
    ((((array items rest).matchesIn focus Cells.none s).1.toList Cells.none s).1.map
      (Except.map Match.value)) =
        [.error (.typeMismatch "array" "string"), .ok (.list 2 [.int 1, .str "x"]),
          .error (.typeMismatch "array" "string"), .ok (.list 3 [.int 2, .str "x"])] ∧
    ∃ choices, Loops Cells.none (elementMatches items rest values) choices ∧
      List.Forall₂ (SameOutcome (ListMatch items.length)) choices
        (((array items rest).matchesIn focus Cells.none s).1.toList Cells.none s).1 := by
  intro items rest values focus s
  have hfocus : Cells.none.resolve focus = .list 0 values := rfl
  have hlength : items.length ≤ values.length := by decide
  have hexact : rest = none → values.length = items.length := nofun
  obtain ⟨-, hlist⟩ := array_nestedLoop hfocus hlength hexact s
  exact ⟨hfocus, hlength, hexact, rfl, hlist s⟩

end DataExpr.Pattern
