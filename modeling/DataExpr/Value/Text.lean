import DataExpr.Value
import DataExpr.Decimal
import DataExpr.Text.Quoted

/-!
# Values as text

`Value.text` shows a value the way data is written, `Value.listing` shows it with the sort of every
node.  Numbers have as many digits as it takes to read them back and never an exponent; texts and
keys stand in quotes.

Cells are shown by their numbers and never by their contents, so a cyclic value has a finite text.
`Value.holdsCell` and `Value.holdsSymbol` tell whether a value has such a node at any depth.
-/

namespace DataExpr

/-- Floats in texts have no exponent, whole numbers show no point, and of two candidates equally near
the upper one is taken. -/
def Decimal.inText : Decimal.Format := ⟨.up, none, false⟩

namespace Value

/-- The text of an integer. -/
def intText (n : Int64) : String := toString n.toInt

/-- The text of a float. -/
def floatText (x : Float) : String := Decimal.printFloat Decimal.inText x

/-- The text of a truth value. -/
def boolText (b : Bool) : String := if b then "true" else "false"

/-- The text of a function. -/
def functionText (name : String) : String := "<function " ++ name ++ ">"

/-- The text of a foreign object. -/
def foreignText (content : Foreign) : String := "<" ++ content.kind.name ++ ">"

mutual

/-- The value as data is written. -/
def text : Value → String
  | undefined => "undefined"
  | null => "null"
  | bool b => boolText b
  | int n => intText n
  | float x => floatText x
  | str s => Text.quoted s
  | symbol _ description => "Symbol(" ++ description ++ ")"
  | date d => d.text
  | list _ items => "[" ++ ", ".intercalate (itemTexts items) ++ "]"
  | map _ entries => "\x7b" ++ ", ".intercalate (entryTexts entries) ++ "\x7d"
  | function _ name => functionText name
  | foreign _ content => foreignText content
  | cell id => "<cell " ++ toString id ++ ">"

/-- The texts of the items of a list. -/
def itemTexts : List Value → List String
  | [] => []
  | v :: vs => text v :: itemTexts vs

/-- The texts of the entries of a map. -/
def entryTexts : List (String × Value) → List String
  | [] => []
  | (k, v) :: es => (Text.quoted k ++ ": " ++ text v) :: entryTexts es

end

mutual

/-- The value with the sort of every node. -/
def listing : Value → String
  | undefined => "Undefined"
  | null => "Null"
  | bool b => "Bool(" ++ boolText b ++ ")"
  | int n => "Int(" ++ intText n ++ ")"
  | float x => "Float(" ++ floatText x ++ ")"
  | str s => "Str(" ++ Text.quoted s ++ ")"
  | symbol id description => "Symbol(" ++ description ++ "#" ++ toString id ++ ")"
  | date d => "Date(" ++ d.text ++ ")"
  | list _ items => "List([" ++ ", ".intercalate (itemListings items) ++ "])"
  | map _ entries => "Map(\x7b" ++ ", ".intercalate (entryListings entries) ++ "\x7d)"
  | function _ name => "Function(" ++ functionText name ++ ")"
  | foreign _ content => "Opaque(" ++ foreignText content ++ ")"
  | cell id => "Cell(" ++ toString id ++ ")"

/-- The listings of the items of a list. -/
def itemListings : List Value → List String
  | [] => []
  | v :: vs => listing v :: itemListings vs

/-- The listings of the entries of a map. -/
def entryListings : List (String × Value) → List String
  | [] => []
  | (k, v) :: es => (Text.quoted k ++ ": " ++ listing v) :: entryListings es

end

/-- The entries of a map in braces, with the sort of every node. -/
def entriesListing (entries : List (String × Value)) : String :=
  "\x7b" ++ ", ".intercalate (entryListings entries) ++ "\x7d"

mutual

/-- Whether a cell stands anywhere in the value. -/
def holdsCell : Value → Bool
  | list _ items => itemsHoldCell items
  | map _ entries => entriesHoldCell entries
  | cell _ => true
  | _ => false

/-- Whether an item of a list is or holds a cell. -/
def itemsHoldCell : List Value → Bool
  | [] => false
  | v :: vs => holdsCell v || itemsHoldCell vs

/-- Whether a value of a map is or holds a cell. -/
def entriesHoldCell : List (String × Value) → Bool
  | [] => false
  | (_, v) :: es => holdsCell v || entriesHoldCell es

end

mutual

/-- Whether a symbol stands anywhere in the value. -/
def holdsSymbol : Value → Bool
  | list _ items => itemsHoldSymbol items
  | map _ entries => entriesHoldSymbol entries
  | symbol .. => true
  | _ => false

/-- Whether an item of a list is or holds a symbol. -/
def itemsHoldSymbol : List Value → Bool
  | [] => false
  | v :: vs => holdsSymbol v || itemsHoldSymbol vs

/-- Whether a value of a map is or holds a symbol. -/
def entriesHoldSymbol : List (String × Value) → Bool
  | [] => false
  | (_, v) :: es => holdsSymbol v || entriesHoldSymbol es

end

/-- The text that a scalar contributes when it is put inside another text. -/
def spliceText : Value → Option String
  | str s => some s
  | int n => some (intText n)
  | float x => some (floatText x)
  | bool b => some (boolText b)
  | _ => none

end Value

end DataExpr
