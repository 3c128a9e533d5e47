import DataExpr.Date

/-!
# Values

A `Value` is a piece of tree-shaped data: a scalar, a list, a map with text keys in order of
insertion, something that only the host understands (a function or a foreign object), or a cell.

Lists and maps carry a number that tells apart two containers of equal content: a container that is
put in several places is the same container there, and a rebuilt one is another.  A cell is a
reference into a store of values; it is what cyclic data is made with.  `Value.identity?` is the
identity of a node, which scalars do not have.
-/

namespace DataExpr

/-- An object of the host that values can hold but not look into. -/
inductive Foreign where
  | int64 (n : Int64)
  | bool (b : Bool)
  | uint8 (n : UInt8)
deriving DecidableEq

/-- A piece of tree-shaped data. -/
inductive Value where
  /-- What an absent optional key holds, and the filler of a list that is extended. -/
  | undefined
  | null
  | bool (b : Bool)
  | int (n : Int64)
  | float (x : Float)
  | str (s : String)
  /-- A unique atom; the description is for display. -/
  | symbol (id : Int) (description : String)
  | date (d : Date)
  | list (node : Nat) (items : List Value)
  /-- A mapping from keys to values, in order of insertion; no key occurs twice. -/
  | map (node : Nat) (entries : List (String × Value))
  | function (id : Int) (name : String)
  | foreign (id : Int) (content : Foreign)
  /-- A reference to the cell of that number. -/
  | cell (id : Nat)
deriving Inhabited

/-- What makes a container or cell the same node wherever it occurs. -/
inductive Identity where
  | node (id : Nat)
  | cell (id : Nat)
deriving DecidableEq, Hashable

/-- The type of a value, integers and floats being one type. -/
inductive ValueType where
  | undefined
  | null
  | bool
  | number
  | string
  | symbol
  | date
  | array
  | object
  | function
  | foreign
deriving DecidableEq

namespace ValueType

/-- The name of the type in messages. -/
def name : ValueType → String
  | undefined => "undefined"
  | null => "null"
  | bool => "bool"
  | number => "number"
  | string => "string"
  | symbol => "symbol"
  | date => "date"
  | array => "array"
  | object => "object"
  | function => "function"
  | foreign => "opaque"

/-- All types. -/
def all : List ValueType :=
  [undefined, null, bool, number, string, symbol, date, array, object, function, foreign]

end ValueType

namespace Foreign

/-- The types of foreign objects. -/
inductive Kind where
  | int64
  | bool
  | uint8
deriving DecidableEq

/-- The name of the type in messages. -/
def Kind.name : Kind → String
  | int64 => "i64"
  | bool => "bool"
  | uint8 => "u8"

/-- The type of the object. -/
def kind : Foreign → Kind
  | int64 _ => .int64
  | bool _ => .bool
  | uint8 _ => .uint8

end Foreign

namespace Value

/-- The identity of a container or cell. -/
def identity? : Value → Option Identity
  | list node _ | map node _ => some (.node node)
  | cell id => some (.cell id)
  | _ => none

/-- The type of the value itself; a cell has the type of nothing. -/
def ownType : Value → ValueType
  | undefined | cell _ => .undefined
  | null => .null
  | bool _ => .bool
  | int _ | float _ => .number
  | str _ => .string
  | symbol .. => .symbol
  | date _ => .date
  | list .. => .array
  | map .. => .object
  | function .. => .function
  | foreign .. => .foreign

/-- Whether the value stands for nothing: it is undefined or null. -/
def isNullish : Value → Bool
  | undefined | null => true
  | _ => false

/-- Whether the value is undefined. -/
def isUndefined : Value → Bool
  | undefined => true
  | _ => false

/-! ### Views -/

/-- The integer that a value is. -/
def int? : Value → Option Int64
  | int n => some n
  | _ => none

/-- The number as a float, whether it is one or an integer. -/
def number? : Value → Option Float
  | int n => some n.toFloat
  | float x => some x
  | _ => none

/-- The boolean that a value is. -/
def bool? : Value → Option Bool
  | bool b => some b
  | _ => none

/-- The text that a value is. -/
def str? : Value → Option String
  | str s => some s
  | _ => none

/-- The items of a list. -/
def items? : Value → Option (List Value)
  | list _ items => some items
  | _ => none

/-- The entries of a map. -/
def entries? : Value → Option (List (String × Value))
  | map _ entries => some entries
  | _ => none

/-- The foreign object that a value is. -/
def foreign? : Value → Option Foreign
  | foreign _ content => some content
  | _ => none

end Value

end DataExpr
