import DataExpr.Pattern

/-!
# What the host brings along

The named predicates, views, functions and edits that a host offers to expressions and to those who
run them.  Those that trace what they see note it in the journal of the session.
-/

namespace DataExpr

/-! ### Predicates -/

namespace Predicate

/-- Whether the value is an even integer. -/
def isEven : Value → Bool
  | .int n => n % 2 == 0
  | _ => false

/-- Whether the value is a number above zero. -/
def isPositive : Value → Bool
  | .int n => 0 < n
  | .float x => 0 < x
  | _ => false

/-- Whether the value is a text of at most three characters. -/
def isShort : Value → Bool
  | .str s => s.length ≤ 3
  | _ => false

/-- Whether the value is a cell, which it is only at the end of a chain that is too long. -/
def isCell : Value → Bool
  | .cell _ => true
  | _ => false

/-- The host's predicate of a name. -/
def named? (name : String) : Option Predicate :=
  let plain (test : Value → Bool) : Option Predicate := some ⟨name, false, fun _ v => test v⟩
  match name with
  | "yes" => plain fun _ => true
  | "no" => plain fun _ => false
  | "even" => plain isEven
  | "positive" => plain isPositive
  | "nullish" => plain Value.isNullish
  | "short" => plain isShort
  | "is_cell" => plain isCell
  | "log" => some ⟨name, true, fun _ _ => true⟩
  | "log_even" => some ⟨name, true, fun _ v => isEven v⟩
  | _ => none

end Predicate

/-! ### Views -/

namespace Lens

/-- The integer that a text of decimal digits with an optional sign denotes, if it has 64 bits. -/
def readInt64 (s : String) : Option Int64 :=
  let number (digits : List Char) : Option Nat :=
    if digits ≠ [] ∧ digits.all Char.isDigit then
      some (digits.foldl (fun n d => 10 * n + (d.toNat - '0'.toNat)) 0)
    else none
  let signed : Option Int := match s.toList with
    | '-' :: digits => (number digits).map fun n => -(n : Int)
    | '+' :: digits => (number digits).map fun n => (n : Int)
    | digits => (number digits).map fun n => (n : Int)
  signed.bind fun n =>
    if Int64.minValue.toInt ≤ n ∧ n ≤ Int64.maxValue.toInt then some (Int64.ofInt n) else none

/-- The first character of a text. -/
def firstChar : Lens := ofGet "first_char" fun v =>
  match v with
  | .str s =>
    match s.toList with
    | c :: _ => return .str (String.singleton c)
    | [] => throw (.custom "not a non-empty string")
  | _ => throw (.custom "not a non-empty string")

/-- An integer as a text of decimal digits. -/
def decimal : Lens where
  name := "decimal"
  get
    | .int n => return .str (toString n.toInt)
    | _ => throw (.custom "not an integer")
  set _ new :=
    match new with
    | .str s =>
      match readInt64 s with
      | some n => return .int n
      | none => throw (.custom "not a decimal")
    | _ => throw (.custom "not a decimal")

/-- The integer after the focus. -/
def successor : Lens where
  name := "inc"
  get
    | .int n => return .int (n + 1)
    | _ => throw (.custom "not an integer")
  set _ new :=
    match new with
    | .int m => return .int (m - 1)
    | other => Eval.mismatch "number" other

/-- The first of a list of two. -/
def firstOfPair : Lens where
  name := "pair"
  get
    | .list _ [a, _] => return a
    | _ => throw (.custom "not a pair")
  set focus new :=
    match focus with
    | .list _ [_, b] => Run.newList [new, b]
    | _ => throw (.custom "not a pair")

/-- The focus, which cannot be replaced. -/
def readOnly : Lens := ⟨"readonly", fun v => return v, fun _ _ => throw (.custom "read-only")⟩

/-- The focus with its cells read through. -/
def peel : Lens := ofGet "peel" fun v => Run.resolve v

/-- The focus, noted in the journal. -/
def traced : Lens := ofGet "log_get" fun v => do
  Run.note v
  return v

/-- The host's view of a name. -/
def named? (name : String) : Option Lens :=
  [firstChar, decimal, successor, firstOfPair, readOnly, peel, traced].find? (·.name == name)

/-- How many parts a value has: characters, items or entries. -/
def size : Value → Value
  | .str s => .int (Int64.ofNat s.length)
  | .list _ items => .int (Int64.ofNat items.length)
  | .map _ entries => .int (Int64.ofNat entries.length)
  | _ => .undefined

/-- The host's function of a name as a view. -/
def projection? (name : String) : Option Lens :=
  match name with
  | "type" => some (ofFunction fun v => return .str (← Run.typeName v))
  | "wrap" => some (ofFunction fun v => Run.newList [v])
  | "len" => some (ofFunction fun v => return size v)
  | _ => none

end Lens

/-! ### Functions and edits -/

/-- What a function that is part of a value gives for the arguments. -/
def Value.call (name : String) (arguments : List Value) : Except EvalError Value :=
  match name with
  | "count" => .ok (.int (Int64.ofNat arguments.length))
  | "first" => .ok (arguments.headD .undefined)
  | _ => .error (.custom "call failed")

/-- A way to make a new value from an old one. -/
abbrev Edit := Value → Eval Value

namespace Edit

/-- Always the same value. -/
def const (v : Value) : Edit := fun _ => return v

/-- The next number. -/
def increment : Edit
  | .int n => return .int (n + 1)
  | .float x => return .float (x + 1.0)
  | _ => throw (.custom "not a number")

/-- The text of a scalar. -/
def splice : Edit := fun v => do
  match (← Run.resolve v).spliceText with
  | some s => return .str s
  | none => Eval.mismatch "scalar" v

/-- The host's edit of a name. -/
def named? (name : String) : Option Edit :=
  match name with
  | "id" => some fun v => return v
  | "undefined" => some (const .undefined)
  | "wrap" => some fun v => Run.newList [v]
  | "type" => some fun v => return .str (← Run.typeName v)
  | "inc" => some increment
  | "text" => some splice
  | "fail" => some fun _ => throw (.custom "edit failed")
  | "log" => some fun v => do Run.note v; return v
  | _ => none

end Edit

end DataExpr
