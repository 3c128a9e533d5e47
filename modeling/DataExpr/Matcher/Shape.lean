import DataExpr.Match
import DataExpr.Entries

/-!
# Matchers for whole maps and lists

`Matcher.object` matches a map by matchers for some of its keys and one for the map of all others, and
`Matcher.array` matches a list by matchers for its first elements and one for each of the others.
Their matches are the combinations of the matches at every position (`Matcher.product`), the
leftmost position varying slowest.

Replacing takes the replacement apart in the same way, gives each part to the match it belongs to and
puts the focus together from what they return.
-/

namespace DataExpr

/-- A key of an object pattern and what its value has to match. -/
structure Field (P : Type) where
  key : String
  optional : Bool
  pattern : P

namespace Matcher

/-- The combinations of one match at each position, the leftmost varying slowest.  An error at a
position takes the place of the combinations that would begin with the matches before it. -/
def product (positions : List (Matcher × Value)) : Findings (List Match) :=
  positions.foldl
    (fun found (m, v) => found.bind fun chosen => return (← m v).map fun next => chosen ++ [next])
    (.single [])

/-! ### Maps -/

/-- The fields that a map has with their values, and the optional keys that it lacks; nothing if it
lacks a key that is not optional. -/
def splitFields {P : Type} (entries : Entries Value) :
    List (Field P) → Option (List (Field P × Value) × List String)
  | [] => some ([], [])
  | field :: fields => do
    let (present, skipped) ← splitFields entries fields
    match Entries.get? entries field.key with
    | some v => some ((field, v) :: present, skipped)
    | none => if field.optional then some (present, field.key :: skipped) else none

/-- A combination of matches of an object pattern, and what is needed to rebuild its focus. -/
structure ObjectMatch where
  /-- The entries of the focus. -/
  entries : Entries Value
  /-- All keys that the pattern names. -/
  named : List String
  /-- The matches of the fields that the focus has. -/
  fields : List (String × Match)
  /-- The optional keys that the focus lacks. -/
  skipped : List String
  /-- The match of the other entries, if it is a map. -/
  rest : Option Match

namespace ObjectMatch

/-- The matched map: the values of the fields, and the entries of the rest over them. -/
def value (m : ObjectMatch) : Run Value := do
  let found := Entries.ofPairs (m.fields.map fun (key, field) => (key, field.value))
  match m.rest with
  | none => Run.newMap found
  | some rest => Run.newMap (Entries.insertAll found ((← Run.resolve rest.value).entries?.getD []))

/-- The entries with each field replaced by its part of the replacement.  A field whose new value is
undefined is removed. -/
def replaceFields (replacement : Entries Value) :
    List (String × Match) → Entries Value → Eval (Entries Value)
  | [], result => return result
  | (key, field) :: fields, result => do
    let new ← field.replace ((Entries.get? replacement key).getD .undefined)
    replaceFields replacement fields
      (if new.isUndefined then Entries.erase result key else Entries.insert result key new)

/-- The entries with the skipped keys that the replacement has. -/
def addSkipped (replacement : Entries Value) (skipped : List String) (result : Entries Value) :
    Entries Value :=
  skipped.foldl (fun result key =>
    match Entries.get? replacement key with
    | none | some .undefined => result
    | some v => Entries.insert result key v) result

/-- The entries with those of the rest replaced. -/
def replaceRest (m : ObjectMatch) (replacement result : Entries Value) : Eval (Entries Value) := do
  match m.rest with
  | none => return result
  | some rest =>
    let rebuilt ← rest.replace (← Run.newMap (Entries.without replacement m.named))
    match ← Run.resolve rebuilt with
    | .map _ others =>
      let gone := (Entries.without m.entries m.named).keys.filter fun key =>
        !Entries.contains others key
      return Entries.insertAll (gone.foldl Entries.erase result) others
    | _ => Eval.mismatch "object" rebuilt

/-- The focus rebuilt around a new map. -/
def replace (m : ObjectMatch) (new : Value) : Eval Value := do
  match ← Run.resolve new with
  | .map _ replacement =>
    let result ← replaceFields replacement m.fields m.entries
    let result := addSkipped replacement m.skipped result
    Run.newMap (← m.replaceRest replacement result)
  | _ => Eval.mismatch "object" new

/-- A match of the rest that is not a map cannot become part of the matched map, and its part of the
focus is left alone. -/
def restOf (found : Option Match) : Run (Option Match) := do
  match found with
  | none => return none
  | some m => return if (← Run.resolve m.value).entries?.isSome then some m else none

end ObjectMatch

/-- Maps that have the fields, each matched as its pattern says, and whose other entries make up a map
that is matched by the rest. -/
def object (fields : List (Field Matcher)) (rest : Option Matcher) : Matcher := fun focus => do
  match ← Run.resolve focus with
  | .map _ entries =>
    match splitFields entries fields with
    | none => return .empty
    | some (present, skipped) =>
      let named := fields.map Field.key
      let others ← match rest with
        | none => pure []
        | some m => do pure [(m, ← Run.newMap (Entries.without entries named))]
      let positions := present.map fun (field, v) => (field.pattern, v)
      return (product (positions ++ others)).mapRun fun found => do
        let keys := present.map fun (field, _) => field.key
        let rest ← ObjectMatch.restOf found[present.length]?
        let m : ObjectMatch := ⟨entries, named, keys.zip found, skipped, rest⟩
        return ⟨← m.value, m.replace⟩
  | _ => return .empty

/-! ### Lists -/

/-- The items with each replaced through the match at its position; those past the matches are kept
as they are. -/
def replaceItems : List Match → List Value → Eval (List Value)
  | m :: ms, v :: vs => do return (← m.replace v) :: (← replaceItems ms vs)
  | _, vs => return vs

/-- Lists whose first elements are matched one by one and all others by the rest. -/
def array (items : List Matcher) (rest : Option Matcher) : Matcher := fun focus => do
  match ← Run.resolve focus with
  | .list _ values =>
    let fits := if rest.isSome then items.length ≤ values.length else values.length = items.length
    if fits then
      let positions := items.zip values
      let others := match rest with
        | none => []
        | some m => (values.drop items.length).map (m, ·)
      return (product (positions ++ others)).mapRun fun found => do
        return ⟨← Run.newList (found.map Match.value), fun new => do
          match ← Run.resolve new with
          | .list _ replacement =>
            if replacement.length < items.length then
              throw (.arityMismatch items.length replacement.length)
            else Run.newList (← replaceItems found replacement)
          | _ => Eval.mismatch "array" new⟩
    else return .empty
  | _ => return .empty

/-- Whether there is a match in every value; the first error is the outcome. -/
def matchesAll (m : Matcher) : List Value → Eval Bool
  | [] => return true
  | v :: vs => do
    match ← (← m v).first with
    | none => return false
    | some _ => matchesAll m vs

/-- The whole list, if every element is matched. -/
def arrayOf (m : Matcher) : Matcher := fun focus => do
  match ← Run.resolve focus with
  | .list _ values =>
    match ← (matchesAll m values).run with
    | .ok true => return .whole focus
    | .ok false => return .empty
    | .error e => return .failed e
  | _ => return .empty

end Matcher

end DataExpr
