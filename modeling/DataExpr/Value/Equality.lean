import DataExpr.Value
import DataExpr.Object

/-!
# Equality of values

Two values are equal (`Value.equal`) when they have the same structure.  Numbers are compared as
numbers, an integer and a float as floats; maps are compared without regard to order; symbols,
functions, foreign objects and cells are equal only to themselves.

Containers of one node are equal without a look at what they hold.  The shortcut shows only where a
value is not equal to itself, which is the case for a float that is not a number.
-/

namespace DataExpr.Value

mutual

/-- Whether two values are equal. -/
def equal : Value → Value → Bool
  | undefined, undefined | null, null => true
  | bool a, bool b => a == b
  | int a, int b => a == b
  | int a, float b => a.toFloat == b
  | float a, int b => a == b.toFloat
  | float a, float b => a == b
  | str a, str b => a == b
  | symbol a _, symbol b _ => a == b
  | date a, date b => a == b
  | list a xs, list b ys => a == b || equalItems xs ys
  | map a es, map b fs => a == b || (es.length == fs.length && includedIn es fs)
  | function a _, function b _ => a == b
  | foreign a _, foreign b _ => a == b
  | cell a, cell b => a == b
  | _, _ => false

/-- Whether two lists have equal values at the same positions. -/
def equalItems : List Value → List Value → Bool
  | [], [] => true
  | x :: xs, y :: ys => equal x y && equalItems xs ys
  | _, _ => false

/-- Whether each entry has an equal one among the others. -/
def includedIn : List (String × Value) → List (String × Value) → Bool
  | [], _ => true
  | (k, v) :: es, fs =>
    (match Entries.get? fs k with
      | some w => equal v w
      | none => false) && includedIn es fs

end

end DataExpr.Value

namespace DataExpr.Object

/-- Whether two objects have equal values at the same keys. -/
def equal (a b : Object Value) : Bool :=
  a.size == b.size && a.toEntries.all fun (k, v) =>
    match b.get? k with
    | some w => v.equal w
    | none => false

end DataExpr.Object
