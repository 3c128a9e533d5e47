import DataExpr.Value
import DataExpr.EvalError

/-!
# Cells and evaluation

The contents of all cells make up a `Cells` store.  Reading sees through a cell: `Cells.resolve`
follows cells to the first value that is none.  A chain of cells may be endless, so at most
`Cells.reach` cells are followed, and what is found there is taken as it is.

An evaluation reads the cells and keeps a `Session`: the number of the next container to be built and
the journal of values that functions of the host have noted.  `Eval` can fail and `Run` cannot.  By
their types neither can change a cell; only `Cells.write` does, and nothing in the evaluation of
patterns has a `Cells` to give back.
-/

namespace DataExpr

/-- The contents of all cells by their numbers. -/
structure Cells where
  contents : Array Value

namespace Cells

/-- The store without cells. -/
def none : Cells := ⟨#[]⟩

/-- The contents of a cell; a cell that the store does not have is empty. -/
def read (cells : Cells) (id : Nat) : Value := cells.contents.getD id .null

/-- The value behind at most that many cells. -/
def follow (cells : Cells) : Nat → Value → Value
  | n + 1, .cell id => follow cells n (cells.read id)
  | _, v => v

/-- How many cells in a chain are seen through. -/
def reach : Nat := 65

/-- The value with its cells read through. -/
def resolve (cells : Cells) (v : Value) : Value := cells.follow reach v

/-- The type of the value behind the cells. -/
def typeOf (cells : Cells) (v : Value) : ValueType := (cells.resolve v).ownType

/-- The name of the type of the value behind the cells. -/
def typeName (cells : Cells) (v : Value) : String := (cells.typeOf v).name

/-- The store after the cell that `target` is has been given new contents. -/
def write (cells : Cells) (target new : Value) : Except EvalError Cells :=
  match target with
  | .cell id => .ok ⟨cells.contents.setIfInBounds id new⟩
  | other => .error (.typeMismatch "cell" (cells.typeName other))

/-- Where no cell stands, nothing is followed. -/
theorem follow_of_ne_cell (cells : Cells) (n : Nat) {v : Value} (h : ∀ id, v ≠ .cell id) :
    cells.follow n v = v := by
  cases n with
  | zero => rfl
  | succ n =>
    cases v with
    | cell id => exact absurd rfl (h id)
    | _ => rfl

/-- Only cells are read through. -/
theorem resolve_of_ne_cell (cells : Cells) {v : Value} (h : ∀ id, v ≠ .cell id) :
    cells.resolve v = v :=
  cells.follow_of_ne_cell reach h

end Cells

/-- What an evaluation keeps from one step to the next. -/
structure Session where
  /-- The number of the next container. -/
  nextNode : Nat
  /-- The values that the host has noted. -/
  journal : Array Value

/-- An evaluation that always has a result. -/
abbrev Run := ReaderT Cells (StateM Session)

/-- An evaluation that may fail; what was kept before a failure stays. -/
abbrev Eval := ExceptT EvalError Run

namespace Run

/-- A number that no container has yet. -/
def freshNode : Run Nat := modifyGet fun s => (s.nextNode, { s with nextNode := s.nextNode + 1 })

/-- A new list. -/
def newList (items : List Value) : Run Value := return .list (← freshNode) items

/-- A new map. -/
def newMap (entries : List (String × Value)) : Run Value := return .map (← freshNode) entries

/-- Note a value in the journal. -/
def note (v : Value) : Run Unit := modify fun s => { s with journal := s.journal.push v }

/-- The value behind the cells. -/
def resolve (v : Value) : Run Value := return (← read).resolve v

/-- The name of the type of the value behind the cells. -/
def typeName (v : Value) : Run String := return (← read).typeName v

end Run

/-- Fail because a value of another type was needed than the given one. -/
def Eval.mismatch {α : Type} (expected : String) (got : Value) : Eval α := do
  throw (.typeMismatch expected (← Run.typeName got))

end DataExpr
