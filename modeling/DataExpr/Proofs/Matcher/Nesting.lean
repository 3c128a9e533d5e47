import DataExpr.Proofs.Findings.Laws
import DataExpr.Proofs.Pattern.Hop.Matches

/-!
# Nested sequences and choices

A sequence of matchers goes inside the matches found so far, one matcher after the other
(`Matcher.within`).  Going inside matches that are themselves inside others is the same as going
inside the others with the composed matcher (`within_within`), so a sequence may stand for its parts
in a longer one: `within_sequence`.  For choices the same is said by `branches_append` and
`branches_choice`.
-/

namespace DataExpr

theorem Match.inside_whole (m : Match) : m.inside (whole m.value) = m := by
  simp [inside, whole]

namespace Matcher

variable {found : Matches} {focus : Value}

/-! ### Sequences -/

/-- The matches of a matcher inside given ones. -/
def within (m : Matcher) (found : Matches) : Matches :=
  found.bind fun outer => return (← m outer.value).map outer.inside

/-- The matches of each matcher inside those of the one before it, beginning with given ones. -/
def withinAll (ms : List Matcher) (found : Matches) : Matches :=
  ms.foldl (fun found m => m.within found) found

theorem withinAll_cons (m : Matcher) (ms : List Matcher) (found : Matches) :
    withinAll (m :: ms) found = withinAll ms (m.within found) := rfl

theorem withinAll_append (ms ns : List Matcher) (found : Matches) :
    withinAll (ms ++ ns) found = withinAll ns (withinAll ms found) :=
  List.foldl_append

theorem sequence_eq (ms : List Matcher) :
    sequence ms = fun focus => return withinAll ms (Matches.whole focus) := rfl

/-- Going inside matches that are inside others is going inside the others. -/
theorem within_within (m : Matcher) (found : Matches) (f : Match → Matches) :
    m.within (found.bind fun outer => return (f outer).map outer.inside) =
      found.bind fun outer => return (m.within (f outer)).map outer.inside := by
  have hinside : ∀ outer inner : Match,
      (do return ((← m inner.value).map inner.inside).map outer.inside) =
        (do return (← m inner.value).map (outer.inside inner).inside : Run Matches) := by
    intro outer inner
    simp only [Findings.map_map]
    refine congrArg (m inner.value >>= ·) (funext fun gs => congrArg pure ?_)
    exact congrArg (Findings.map · gs) (funext fun a => (Match.inside_inside outer inner a).symm)
  rw [within, Findings.bind_bind]
  refine congrArg (found.bind ·) (funext fun outer => ?_)
  -- Both sides go through the matches of `f outer` once and differ in how they put the parts together.
  simp only [pure_bind, within, Findings.bind_map, Findings.map_bind, Match.value_inside, bind_assoc,
    hinside]

theorem withinAll_within (ms : List Matcher) (found : Matches) (f : Match → Matches) :
    withinAll ms (found.bind fun outer => return (f outer).map outer.inside) =
      found.bind fun outer => return (withinAll ms (f outer)).map outer.inside := by
  induction ms generalizing f with
  | nil => rfl
  | cons m ms ih =>
    rw [withinAll_cons, within_within]
    exact ih fun outer => m.within (f outer)

/-- A sequence inside given matches is each of its matchers inside those before it. -/
theorem within_sequence (ms : List Matcher) (found : Matches) :
    (sequence ms).within found = withinAll ms found := by
  have hfound : (found.bind fun outer => return (Matches.whole outer.value).map outer.inside) =
      found := by
    simp only [Matches.whole, Findings.map_single, Match.inside_whole, Findings.bind_single]
  have hwithin := withinAll_within ms found fun outer => Matches.whole outer.value
  rw [hfound] at hwithin
  exact hwithin.symm

/-! ### Choices -/

/-- The matches of each matcher, as a sequence that is made without asking for anything. -/
def branches (ms : List Matcher) (focus : Value) : Matches :=
  (Findings.ofList ms).bind fun m => m focus

theorem choice_eq (ms : List Matcher) : choice ms = fun focus => return branches ms focus := rfl

theorem branches_append (ms ns : List Matcher) (focus : Value) :
    branches (ms ++ ns) focus = (branches ms focus).append (branches ns focus) := by
  rw [branches, Findings.ofList_append, Findings.bind_append, branches, branches]

/-- A choice as the only branch is its branches. -/
theorem branches_choice (ms : List Matcher) (focus : Value) :
    branches [choice ms] focus = branches ms focus :=
  (Findings.single_bind _ _).trans (Findings.mk_pull _)

end Matcher

end DataExpr
