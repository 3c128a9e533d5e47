import DataExpr.Match

/-!
# Matchers made from matchers

`Matcher.sequence` runs matchers one inside the other, `Matcher.choice` one after the other,
`Matcher.lookahead` keeps the focus if there is a match, `Matcher.limit` keeps the first few matches
and `Matcher.gather` makes one match of all of them.

A replacement for several matches at once is made by `Matcher.editJointly`: the last match is edited
first, and the matches are looked for anew in what the edits so far have made, so that every edit is
placed in a focus whose earlier part has not changed.
-/

namespace DataExpr.Matcher

/-- The matches of each matcher inside the matches of the one before it. -/
def sequence (ms : List Matcher) : Matcher := fun focus =>
  return ms.foldl
    (fun found m => found.bind fun outer => return (← m outer.value).map outer.inside)
    (Matches.whole focus)

/-- The matches of each matcher, one after the other. -/
def choice (ms : List Matcher) : Matcher := fun focus =>
  return (Findings.ofList ms).bind fun m => m focus

/-- The focus, if there is a match in it. -/
def lookahead (m : Matcher) : Matcher := fun focus =>
  return .delayed do
    match ← (← m focus).next with
    | none => return none
    | some (.ok _, _) => return some (.ok (.whole focus))
    | some (.error e, _) => return some (.error e)

/-- The first `n` matches. -/
def limit (m : Matcher) (n : Nat) : Matcher := fun focus => return (← m focus).take n

/-! ### Joint edits -/

/-- The focus with its first `count` matches edited, the last of them first.  The edit is given the
position of the match and its value.  A match that earlier edits have made disappear is left out. -/
def editJointly (m : Matcher) (edit : Nat → Value → Eval Value) : Nat → Value → Eval Value
  | 0, focus => return focus
  | n + 1, focus => do
    match ← (← m focus).nth n with
    | none => editJointly m edit n focus
    | some found =>
      let edited ← found.replace (← edit n found.value)
      editJointly m edit n edited

/-! ### Gathering -/

/-- How a replacement is spread over gathered matches. -/
inductive Spreading where
  /-- Every match gets the whole replacement. -/
  | shared
  /-- The replacement is a list with one item for each match. -/
  | perPosition
deriving DecidableEq

/-- What each of `count` gathered matches gets of a replacement. -/
def Spreading.shares (s : Spreading) (count : Nat) (new : Value) : Eval (Nat → Value) := do
  match s with
  | shared => return fun _ => new
  | perPosition =>
    match ← Run.resolve new with
    | .list _ items =>
      if items.length = count then return fun i => items.getD i .undefined
      else throw (.arityMismatch count items.length)
    | _ => Eval.mismatch "array" new

/-- One match with the list of the values of all matches. -/
def gather (m : Matcher) (s : Spreading) : Matcher := fun focus =>
  return .delayed do
    match ← (do (← m focus).collect : Eval (List Match)).run with
    | .error e => return some (.error e)
    | .ok found =>
      let values ← Run.newList (found.map Match.value)
      return some (.ok ⟨values, fun new => do
        let share ← s.shares found.length new
        editJointly m (fun i _ => return share i) found.length focus⟩)

end DataExpr.Matcher
