import DataExpr.Document

/-!
# Documents of alternatives

Data that is one of several alternatives is written as a document that names the alternative: as an
object whose only key is the name if the alternative has data of its own, and else as the name alone.

The readers for parts of such documents give nothing for a document of another form.
-/

namespace DataExpr.Document

/-- The document of an alternative with data of its own. -/
def tagged (name : String) (d : Document) : Document := object [(name, d)]

/-- The name of the alternative and its data; without data of its own it has null. -/
def tagged? : Document → Option (String × Document)
  | object [(name, d)] => some (name, d)
  | str name => some (name, null)
  | _ => none

/-- The document, or null if there is none. -/
def ofOption : Option Document → Document
  | none => null
  | some d => d

/-- What the document is read as, unless it is null. -/
def toOption? {α : Type} (read : Document → Option α) : Document → Option (Option α)
  | null => some none
  | d => some <$> read d

/-- The boolean that a document is. -/
def toBool? : Document → Option Bool
  | bool b => some b
  | _ => none

/-- The string that a document is. -/
def toStr? : Document → Option String
  | str s => some s
  | _ => none

/-- The natural number that a document is. -/
def toNat? : Document → Option Nat
  | int n => if 0 ≤ n then some n.toNat else none
  | _ => none

/-- The integer, if it takes no more than 64 bits with its sign. -/
def toInt64? : Document → Option Int64
  | int n =>
    if Int64.minValue.toInt ≤ n ∧ n ≤ Int64.maxValue.toInt then some (Int64.ofInt n) else none
  | _ => none

/-- The natural number, if it takes no more than 64 bits. -/
def toUInt64? (d : Document) : Option UInt64 := do
  let n ← d.toNat?
  if n < UInt64.size then return UInt64.ofNat n else none

/-- The member of an object with that key; null stands for a member that is not there. -/
def member? (key : String) : Document → Option Document
  | object members => some (ofOption (Entries.get? members key))
  | _ => none

end DataExpr.Document
