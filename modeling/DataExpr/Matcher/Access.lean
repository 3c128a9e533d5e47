import DataExpr.Match
import DataExpr.Path
import DataExpr.Regex.Search
import DataExpr.Value.Equality
import DataExpr.Value.Text

/-!
# Matchers that look at one place

The matchers of this module test the focus or reach one place in it: a predicate, a value to be equal
to, a key of a map, a position in a list, a slice of a list or text, the places in a text that a regular
expression finds, and a view that the host defines.

All of them see through cells, and all look at the focus when the sequence of matches is made.
Replacing builds a plain container and never writes to a cell.

Optional keys and positions match also where there is nothing; the value is then undefined, and
putting undefined in its place leaves the focus as it is (`Matcher.absent`).
-/

namespace DataExpr

/-- A named test of values. -/
structure Predicate where
  name : String
  /-- Whether each use notes the value in the journal. -/
  noted : Bool
  /-- Whether the test holds, for a value with its cells read through. -/
  holds : Cells → Value → Bool

/-- A view that the host defines: how to get a value from a focus and how to put one back.  Failing to
get one means that there is no match; failing to put one back is an error. -/
structure Lens where
  name : String
  get : Value → Eval Value
  set : Value → Value → Eval Value

/-- A regular expression as a pattern, together with its notation. -/
structure RegexPattern where
  source : String
  regex : Regex
  /-- Whether all matches are found or the first alone. -/
  isGlobal : Bool

namespace Predicate

/-- Test a value, its cells read through. -/
def test (p : Predicate) (v : Value) : Run Bool := do
  let v ← Run.resolve v
  if p.noted then Run.note v
  return p.holds (← read) v

/-- The test for a type, seen through cells. -/
def ofType (type : ValueType) : Predicate :=
  ⟨type.name, false, fun cells v => cells.typeOf v == type⟩

/-- The test for foreign objects of a type. -/
def ofForeign (kind : Foreign.Kind) : Predicate :=
  ⟨kind.name, false, fun _ v => v.foreign?.any (·.kind == kind)⟩

end Predicate

namespace Lens

/-- The view whose new value takes the place of the focus. -/
def ofGet (name : String) (get : Value → Eval Value) : Lens := ⟨name, get, fun _ new => return new⟩

/-- The view through a function that does not fail. -/
def ofFunction (f : Value → Run Value) : Lens := ofGet "project" fun v => f v

end Lens

namespace Matcher

/-! ### Tests -/

/-- The focus, if the predicate holds. -/
def satisfying (p : Predicate) : Matcher := fun focus => do
  return if ← p.test focus then .whole focus else .empty

/-- The focus, if it or what it holds as a cell equals the value. -/
def equalTo (expected : Value) : Matcher := fun focus => do
  return if focus.equal expected || (← Run.resolve focus).equal expected then .whole focus
    else .empty

/-- What the view gets from the focus. -/
def through (lens : Lens) : Matcher := fun focus => do
  match ← (lens.get focus).run with
  | .ok value => return .single ⟨value, lens.set focus⟩
  | .error _ => return .empty

/-! ### Keys and positions -/

/-- The match of a place where there is nothing yet.  Putting undefined there leaves the focus as it
is, anything else is filled in. -/
def absent (focus : Value) (fill : Value → Eval Value) : Match :=
  ⟨.undefined, fun new => if new.isUndefined then return focus else fill new⟩

/-- The value at a key of a map. -/
def key (name : String) (optional : Bool) : Matcher := fun focus => do
  match ← Run.resolve focus with
  | .map _ entries =>
    let put new : Eval Value := newMapWith entries name new
    match Entries.get? entries name with
    | some found => return .single ⟨found, put⟩
    | none => return if optional then .single (absent focus put) else .empty
  | other =>
    if !optional then return .empty
    else if other.isNullish then
      return .single (absent focus fun new => Run.newMap [(name, new)])
    else
      let got ← Run.typeName other
      return .single (absent focus fun _ => throw (.typeMismatch "object" got))

/-- The position that an index stands for in a sequence of the given length, negative indices counting
from the end.  It may lie past the end. -/
def position? (index : Int64) (length : Nat) : Option Nat :=
  let i := index.toInt
  if 0 ≤ i then some i.toNat
  else if 0 ≤ length + i then some (length + i).toNat
  else none

/-- The most undefined items that an optional position adds to a list before it. -/
def maxFill : Nat := 65536

/-- The match of a position that a list of items does not have. -/
def absentItem (focus : Value) (items : List Value) (index : Int64) : Match :=
  absent focus fun new =>
    match position? index items.length with
    | some position =>
      if position - items.length ≤ maxFill then newListWith items position new
      else throw (.indexOutOfBounds index.toInt items.length)
    | none => throw (.indexOutOfBounds index.toInt items.length)

/-- The item at a position of a list, or the value at that number as a key of a map. -/
def index (i : Int64) (optional : Bool) : Matcher := fun focus => do
  match ← Run.resolve focus with
  | .list _ items =>
    match (position? i items.length).bind fun p => items[p]?.map (p, ·) with
    | some (position, found) => return .single ⟨found, fun new => newListWith items position new⟩
    | none => return if optional then .single (absentItem focus items i) else .empty
  | .map .. => key (toString i.toInt) optional focus
  | other =>
    if optional && other.isNullish then return .single (absentItem focus [] i)
    else return .failed (.typeMismatch "array" (← Run.typeName other))

/-! ### Slices -/

/-- A bound of a slice in a sequence of the given length, negative ones counting from the end. -/
def clampBound (bound : Int64) (length : Nat) : Nat :=
  match position? bound length with
  | some position => min position length
  | none => 0

/-- Where a slice begins and ends; it is empty if the end would come before the beginning. -/
def sliceRange (start stop : Option Int64) (length : Nat) : Nat × Nat :=
  let first := start.elim 0 (clampBound · length)
  let last := stop.elim length (clampBound · length)
  (first, max last first)

/-- A slice of a list, or of a text by characters. -/
def slice (start stop : Option Int64) : Matcher := fun focus => do
  match ← Run.resolve focus with
  | .list _ items =>
    let (first, last) := sliceRange start stop items.length
    let found ← Run.newList ((items.take last).drop first)
    return .single ⟨found, fun new => do
      match ← Run.resolve new with
      | .list _ middle => Run.newList (items.take first ++ middle ++ items.drop last)
      | _ => Eval.mismatch "array" new⟩
  | .str text =>
    let chars := text.toList
    let (first, last) := sliceRange start stop chars.length
    return .single ⟨.str (String.ofList ((chars.take last).drop first)), fun new => do
      match ← Run.resolve new with
      | .str middle =>
        return .str (String.ofList (chars.take first ++ middle.toList ++ chars.drop last))
      | _ => Eval.mismatch "string" new⟩
  | other => return .failed (.typeMismatch "array or string" (← Run.typeName other))

/-! ### Regular expressions -/

/-- The piece of a text at two positions, which has the given characters; a scalar may take its
place. -/
def piece (chars : List Char) (span : Nat × Nat) (found : List Char) : Match :=
  ⟨.str (String.ofList found), fun new => do
    match (← Run.resolve new).spliceText with
    | some middle =>
      return .str (String.ofList (chars.take span.1 ++ middle.toList ++ chars.drop span.2))
    | none => Eval.mismatch "string" new⟩

/-- The pieces of a text at pairs of positions that go from left to right, none of them before `index`,
where `rest` is the text from there on. -/
def pieces (chars : List Char) (index : Nat) (rest : List Char) : List (Nat × Nat) → List Match
  | [] => []
  | span :: spans =>
    let rest := rest.drop (span.1 - index)
    piece chars span (rest.take (span.2 - span.1)) :: pieces chars span.1 rest spans

/-- The pieces of a text that a regular expression finds. -/
def regex (r : RegexPattern) : Matcher := fun focus => do
  match ← Run.resolve focus with
  | .str text =>
    let chars := text.toList
    let spans := if r.isGlobal then r.regex.spans chars else (r.regex.find chars).toList
    return .ofList (pieces chars 0 chars spans)
  | _ => return .empty

end Matcher

end DataExpr
