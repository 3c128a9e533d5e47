import DataExpr.Matcher.Access
import DataExpr.Matcher.Combine
import DataExpr.Matcher.Shape
import DataExpr.Matcher.Walk

/-!
# Patterns

A `Pattern` is a tree that says what to look for in a value.  It is built once and applied to many
values; `Pattern.matcher` is what it means: each kind of node is one of the matchers, applied to the
meanings of its parts.
-/

namespace DataExpr

/-- What to look for in a value. -/
inductive Pattern where
  /-- The focus itself. -/
  | self
  /-- Nothing. -/
  | fail
  /-- The focus, if the predicate holds. -/
  | satisfying (p : Predicate)
  /-- The focus, if it equals the value. -/
  | value (v : Value)
  | key (name : String) (optional : Bool)
  | index (i : Int64) (optional : Bool)
  | slice (start stop : Option Int64)
  | regex (r : RegexPattern)
  | lens (l : Lens)
  /-- All children. -/
  | spread
  /-- All nodes below the focus and itself. -/
  | descend (maxVisits : Nat)
  | seq (parts : List Pattern)
  | alt (branches : List Pattern)
  | lookahead (p : Pattern)
  | limit (p : Pattern) (n : Nat)
  /-- One match with the values of all matches. -/
  | gather (p : Pattern) (s : Matcher.Spreading)
  | object (fields : List (Field Pattern)) (rest : Option Pattern)
  | array (items : List Pattern) (rest : Option Pattern)
  /-- The whole list, if every element matches. -/
  | arrayOf (p : Pattern)

namespace Pattern

instance : Inhabited Pattern := ⟨self⟩

/-- The first match alone. -/
def cut (p : Pattern) : Pattern := limit p 1

/-! ### Meaning -/

mutual

/-- The matcher that a pattern stands for. -/
def matcher : Pattern → Matcher
  | self => fun focus => return .whole focus
  | fail => fun _ => return .empty
  | satisfying p => Matcher.satisfying p
  | value v => Matcher.equalTo v
  | key name optional => Matcher.key name optional
  | index i optional => Matcher.index i optional
  | slice start stop => Matcher.slice start stop
  | regex r => Matcher.regex r
  | lens l => Matcher.through l
  | spread => Matcher.spread
  | descend maxVisits => Matcher.descend maxVisits
  | seq parts => Matcher.sequence (matchers parts)
  | alt branches => Matcher.choice (matchers branches)
  | lookahead p => Matcher.lookahead (matcher p)
  | limit p n => Matcher.limit (matcher p) n
  | gather p s => Matcher.gather (matcher p) s
  | object fields rest => Matcher.object (fieldMatchers fields) (restMatcher rest)
  | array items rest => Matcher.array (matchers items) (restMatcher rest)
  | arrayOf p => Matcher.arrayOf (matcher p)

/-- The matchers of a list of patterns. -/
def matchers : List Pattern → List Matcher
  | [] => []
  | p :: ps => matcher p :: matchers ps

/-- The fields with matchers in place of patterns. -/
def fieldMatchers : List (Field Pattern) → List (Field Matcher)
  | [] => []
  | ⟨k, optional, p⟩ :: fields => ⟨k, optional, matcher p⟩ :: fieldMatchers fields

/-- The matcher of the rest, if there is one. -/
def restMatcher : Option Pattern → Option Matcher
  | none => none
  | some p => some (matcher p)

end

theorem matchers_eq_map (ps : List Pattern) : matchers ps = ps.map matcher := by
  induction ps with
  | nil => rfl
  | cons p ps ih => rw [matchers, ih, List.map_cons]

theorem fieldMatchers_eq_map (fields : List (Field Pattern)) :
    fieldMatchers fields = fields.map fun f => ⟨f.key, f.optional, matcher f.pattern⟩ := by
  induction fields with
  | nil => rfl
  | cons f fields ih => rw [fieldMatchers, ih, List.map_cons]

theorem restMatcher_eq_map (rest : Option Pattern) : restMatcher rest = rest.map matcher := by
  cases rest <;> rfl

/-! ### Operations -/

/-- The matches in a value. -/
def matchesIn (p : Pattern) (focus : Value) : Run Matches := p.matcher focus

/-- Whether there is a match. -/
def test (p : Pattern) (focus : Value) : Eval Bool := do
  return (← (← p.matchesIn focus).first).isSome

/-- The value of the first match. -/
def first (p : Pattern) (focus : Value) : Eval (Option Value) := do
  return (← (← p.matchesIn focus).first).map Match.value

/-- The focus with its first match replaced, or as it is if there is none. -/
def replace (p : Pattern) (focus new : Value) : Eval Value := do
  match ← (← p.matchesIn focus).first with
  | some found => found.replace new
  | none => return focus

/-- The values of the matches, at most `max` of them; errors stand in their places. -/
def all (p : Pattern) (focus : Value) (max : Nat) : Run (List (Except EvalError Value)) := do
  ((← p.matchesIn focus).take max).forEach fun item => return item.map Match.value

/-- For each match the focus with that match alone edited, for at most `max` matches. -/
def updateEach (p : Pattern) (focus : Value) (edit : Value → Eval Value) (max : Nat) :
    Run (List (Except EvalError Value)) := do
  ((← p.matchesIn focus).take max).forEach fun item => do
    match item with
    | .error e => return .error e
    | .ok found => (do found.replace (← edit found.value) : Eval Value).run

/-- The focus with all matches edited.  Errors among the matches come before any edit. -/
def editAll (p : Pattern) (focus : Value) (edit : Value → Eval Value) : Eval Value := do
  let found ← (← p.matchesIn focus).collect
  Matcher.editJointly p.matcher (fun _ old => edit old) found.length focus

end Pattern

end DataExpr
