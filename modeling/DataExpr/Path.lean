import DataExpr.Store
import DataExpr.Entries

/-!
# Positions inside a value

A `Path` leads from a value to a node below it, one `Step` at a time.  Values are never changed in
place: `Path.set` builds anew every container on the way and shares everything else.  Cells on the way
are read through, and the plain container that they held takes their place.
-/

namespace DataExpr

/-- A step from a container to a child. -/
inductive Step where
  | index (i : Nat)
  | key (name : String)
deriving DecidableEq

/-- Steps from a value to a node below it. -/
abbrev Path := List Step

/-- The step as text. -/
def Step.text : Step → String
  | index i => "[" ++ toString i ++ "]"
  | key k => "." ++ k

/-- The path as text. -/
def Path.text (path : Path) : String := String.join (path.map Step.text)

/-- The items with one of them changed.  A position past the end extends the list by undefined
items. -/
def setItem (items : List Value) (i : Nat) (v : Value) : List Value :=
  if i < items.length then items.set i v
  else items ++ List.replicate (i - items.length) .undefined ++ [v]

/-- A new list with one item changed. -/
def newListWith (items : List Value) (i : Nat) (v : Value) : Run Value :=
  Run.newList (setItem items i v)

/-- A new map with one entry changed or added. -/
def newMapWith (entries : List (String × Value)) (key : String) (v : Value) : Run Value :=
  Run.newMap (Entries.insert entries key v)

/-- The value `root` with a new value at the end of the path.  The last key of the path may be absent,
everything before it has to be there. -/
def Path.set : Path → Value → Value → Eval Value
  | [], _, new => return new
  | .index i :: rest, root, new => do
    match ← Run.resolve root with
    | .list _ items =>
      match items[i]? with
      | none => throw (.indexOutOfBounds (min i Int64.maxValue.toInt) items.length)
      | some child => newListWith items i (← Path.set rest child new)
    | other => Eval.mismatch "array" other
  | .key key :: rest, root, new => do
    match ← Run.resolve root with
    | .map _ entries =>
      let child := (Entries.get? entries key).getD .undefined
      newMapWith entries key (← Path.set rest child new)
    | other => Eval.mismatch "object" other

end DataExpr
