import DataExpr.Document.Printer
import DataExpr.Store
import DataExpr.Value.Text

/-!
# Values as documents

`Value.ofDocument` builds the value that a JSON document describes, with new containers throughout.
`Value.toDocument` goes the other way.  Documents have fewer kinds of data than values: undefined
becomes null, a symbol becomes its description and a date its text.  Functions and foreign objects
have no document, nor do numbers that are not finite.

Cells are replaced by what they hold.  A value in which a cell is reached from its own contents would
have an infinite document and is refused.  Cells that are being replaced are remembered on the way
down; there are no more of them than the store has cells, so the writing ends.
-/

namespace DataExpr

/-- Why a value has no document. -/
inductive DocumentError where
  | unsupported (type : ValueType)
  | cyclic
  | nonFinite (x : Float)

/-- The message for people. -/
def DocumentError.message : DocumentError → String
  | unsupported type => type.name ++ " values have no JSON representation"
  | cyclic => "cannot write a cyclic value as JSON"
  | nonFinite x => "non-finite number " ++ Value.floatText x ++ " has no JSON representation"

namespace Value

/-! ### From documents -/

/-- The number of a document: integers that take more than 64 bits with their sign become floats. -/
def ofInt (n : Int) : Value :=
  if Int64.minValue.toInt ≤ n ∧ n ≤ Int64.maxValue.toInt then .int (Int64.ofInt n)
  else .float (Float.ofInt n)

mutual

/-- The value that a document describes. -/
def ofDocument : Document → Run Value
  | .null => return .null
  | .bool b => return .bool b
  | .int n => return ofInt n
  | .float x => return .float x
  | .str s => return .str s
  | .array items => do Run.newList (← ofItems items)
  | .object members => do Run.newMap (Entries.ofPairs (← ofMembers members))

/-- The values that the items of an array describe. -/
def ofItems : List Document → Run (List Value)
  | [] => return []
  | d :: ds => do
    let v ← ofDocument d
    return v :: (← ofItems ds)

/-- The values that the members of an object describe, with their keys. -/
def ofMembers : List (String × Document) → Run (List (String × Value))
  | [] => return []
  | (k, d) :: ms => do
    let v ← ofDocument d
    return (k, v) :: (← ofMembers ms)

end

/-! ### To documents -/

/-- The outcome of writing a value as a document. -/
abbrev Written := Except DocumentError

mutual

/-- The document of a value, when it is known how to write cells. -/
def write (writeCell : Nat → Written Document) : Value → Written Document
  | undefined | null => .ok .null
  | bool b => .ok (.bool b)
  | int n => .ok (.int n.toInt)
  | float x => if x.isFinite then .ok (.float x) else .error (.nonFinite x)
  | str s => .ok (.str s)
  | symbol _ description => .ok (.str description)
  | date d => .ok (.str d.text)
  | list _ items => Document.array <$> writeItems writeCell items
  | map _ entries =>
    (fun members => Document.object (Entries.sorted members)) <$> writeEntries writeCell entries
  | function .. => .error (.unsupported .function)
  | foreign .. => .error (.unsupported .foreign)
  | cell id => writeCell id

/-- The documents of the items of a list. -/
def writeItems (writeCell : Nat → Written Document) : List Value → Written (List Document)
  | [] => .ok []
  | v :: vs => do
    let d ← write writeCell v
    return d :: (← writeItems writeCell vs)

/-- The documents of the entries of a map, with their keys. -/
def writeEntries (writeCell : Nat → Written Document) :
    List (String × Value) → Written (List (String × Document))
  | [] => .ok []
  | (k, v) :: es => do
    let d ← write writeCell v
    return (k, d) :: (← writeEntries writeCell es)

end

/-- The document of a value inside the given cells, where at most `n` other cells have contents. -/
def writeWithin (cells : Cells) : Nat → List Nat → Value → Written Document
  | 0, opened => write fun id => if id ∈ opened then .error .cyclic else .ok .null
  | n + 1, opened => write fun id =>
    if id ∈ opened then .error .cyclic
    else writeWithin cells n (id :: opened) (cells.resolve (.cell id))

/-- The document of a value. -/
def toDocument (cells : Cells) (v : Value) : Written Document :=
  writeWithin cells cells.contents.size [] v

end Value

end DataExpr
