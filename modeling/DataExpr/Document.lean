import DataExpr.Entries

/-!
# JSON documents

A `Document` is what a JSON text says: the tree of its arrays and objects with scalars at the leaves.
Integers and other numbers are kept apart, and so is the order of the members of an object.  A
document that was read from text, or written for a value, has the members of every object in ascending
order of keys, each key once (`Entries.sorted`); a document made for another purpose may have another
order.
-/

namespace DataExpr

/-- A JSON document. -/
inductive Document where
  | null
  | bool (b : Bool)
  | int (n : Int)
  /-- A number that is written with a point or an exponent. -/
  | float (x : Float)
  | str (s : String)
  | array (items : List Document)
  | object (members : List (String × Document))
deriving Inhabited

end DataExpr
