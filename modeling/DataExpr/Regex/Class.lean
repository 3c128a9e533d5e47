import DataExpr.CharSet

/-!
# Classes of characters in brackets

A class lists characters and ranges of characters in brackets, and denotes the set of all of them; a
`^` directly after the bracket negates it.  Further classes may stand inside it, some of which have
names.  The operators `&&`, `--` and `~~` combine all that has been listed before them with all that is
listed up to the next operator.

Marks that have a meaning in a class stand for themselves where they cannot have it:

* dashes at the beginning, a dash before the closing bracket, and a dash after a range or a class;
* a closing bracket at the beginning, which begins no range either;
* any mark but a dash and a closing bracket after the dash of a range;
* `&` and `~` that are not doubled.

A class is read one character at a time (`Brackets.step`).
-/

namespace DataExpr.Regex

/-! ### Characters after a backslash -/

/-- Whether a backslash makes the character stand for itself. -/
def isMark (c : Char) : Bool := !c.isAlphanum && c.toNat < 0x80 && c != '<' && c != '>'

/-- The character that a backslash and this character denote. -/
def escapedChar? (c : Char) : Option Char :=
  match c with
  | 'a' => some '\x07'
  | 't' => some '\t'
  | 'n' => some '\n'
  | 'v' => some '\x0b'
  | 'f' => some '\x0c'
  | 'r' => some '\r'
  | c => if isMark c then some c else none

/-! ### Classes with names -/

/-- The classes that have a name. -/
def namedSets : List (String × CharSet) :=
  [("alnum", .ofRanges [('0', '9'), ('A', 'Z'), ('a', 'z')]),
    ("alpha", .ofRanges [('A', 'Z'), ('a', 'z')]),
    ("ascii", .ofRanges [('\x00', '\x7f')]),
    ("blank", .ofRanges [('\t', '\t'), (' ', ' ')]),
    ("cntrl", .ofRanges [('\x00', '\x1f'), ('\x7f', '\x7f')]),
    ("digit", .ofRanges [('0', '9')]),
    ("graph", .ofRanges [('!', '~')]),
    ("lower", .ofRanges [('a', 'z')]),
    ("print", .ofRanges [(' ', '~')]),
    ("punct", .ofRanges [('!', '/'), (':', '@'), ('[', '\x60'), ('\x7b', '~')]),
    ("space", .ofRanges [('\t', '\r'), (' ', ' ')]),
    ("upper", .ofRanges [('A', 'Z')]),
    ("word", .ofRanges [('0', '9'), ('A', 'Z'), ('_', '_'), ('a', 'z')]),
    ("xdigit", .ofRanges [('0', '9'), ('A', 'F'), ('a', 'f')])]

/-- The set that the text between brackets names, with colons around the name and maybe a `^` before it
that negates it. -/
def namedSet? (text : String) : Option CharSet :=
  namedSets.findSome? fun (name, set) =>
    if text = ":" ++ name ++ ":" then some set
    else if text = ":^" ++ name ++ ":" then some set.complement
    else none

/-! ### Reading -/

/-- The operators of classes. -/
inductive Combination where
  | intersection
  | difference
  | symmetricDifference
deriving DecidableEq

/-- The set that an operator makes of two. -/
def Combination.apply : Combination → CharSet → CharSet → CharSet
  | intersection => .intersection
  | difference => .difference
  | symmetricDifference => .symmetricDifference

/-- The operator that the doubled mark is. -/
def Combination.ofMark? : Char → Option Combination
  | '&' => some intersection
  | '-' => some difference
  | '~' => some symmetricDifference
  | _ => none

/-- What decides how the next character of a class is read. -/
inductive Class.Place where
  /-- Nothing has been read but the bracket. -/
  | opened
  /-- Nothing has been read but the bracket, a `^` or none, and dashes. -/
  | leading
  /-- What has been read does not matter. -/
  | between
  /-- A character has just been read that may begin a range. -/
  | low (c : Char)
  /-- A dash has just been read that may belong to a range from the character. -/
  | dash (low : Char)
  /-- A mark has just been read that may be the first half of an operator. -/
  | mark (c : Char)
  /-- A backslash has just been read, after the dash of a range from the character if there is one. -/
  | escaped (low : Option Char)

/-- What has been read of a class. -/
structure Class where
  negated : Bool
  /-- What comes before the last operator, and this operator. -/
  combined : Option (CharSet × Combination)
  /-- What has been listed since then. -/
  set : CharSet
  place : Class.Place
  /-- All characters since the bracket, latest first. -/
  text : List Char

namespace Class

/-- The class when its bracket has been read. -/
def opened : Class := ⟨false, none, .empty, .opened, []⟩

/-- What has been listed in all, without negation. -/
def total (k : Class) : CharSet :=
  match k.combined with
  | none => k.set
  | some (before, op) => op.apply before k.set

/-- The set that the class denotes when its closing bracket has been read. -/
def denoted (k : Class) : CharSet := if k.negated then k.total.complement else k.total

/-- The class with the characters from `first` to `last`, which may come before a certain place. -/
def list (k : Class) (first last : Char) (place : Place) : Class :=
  { k with set := k.set.insert first last, place }

/-- The class with the range, if it is not the wrong way round. -/
def listRange (k : Class) (first last : Char) : Option Class :=
  if first ≤ last then some (k.list first last .between) else none

/-- The class after an operator. -/
def combine (k : Class) (op : Combination) : Class :=
  { k with combined := some (k.total, op), set := .empty, place := .between }

end Class

/-- What has been read of the outermost class. -/
inductive Brackets where
  /-- The innermost class that is open, and those around it from the inside to the outside. -/
  | within (inner : Class) (outer : List Class)
  /-- The closing bracket has been read. -/
  | complete (set : CharSet)

namespace Brackets

/-- The outermost class when its bracket has been read. -/
def opened : Brackets := within .opened []

/-- Take the closing bracket of the innermost class into account. -/
def close (k : Class) : List Class → Brackets
  | [] => complete k.denoted
  | around :: outer =>
    let set := (namedSet? (String.ofList k.text.reverse)).getD k.denoted
    within { around with set := around.set.union set, place := .between } outer

/-- Take a character that belongs to nothing before it into account. -/
def item (k : Class) (outer : List Class) (c : Char) : Brackets :=
  let kept := { k with text := c :: k.text }
  match c with
  | ']' => close k outer
  | '[' => within .opened (kept :: outer)
  | '\\' => within { kept with place := .escaped none } outer
  | '&' | '-' | '~' => within { kept with place := .mark c } outer
  | c => within (kept.list c c (.low c)) outer

/-- Take one character into account. -/
def step (b : Brackets) (c : Char) : Option Brackets :=
  match b with
  | complete _ => none
  | within k outer =>
    let kept := { k with text := c :: k.text }
    match k.place with
    | .opened =>
      if c = '^' then some (within { kept with negated := true, place := .leading } outer)
      else if c = '-' then some (within (kept.list c c .leading) outer)
      else if c = ']' then some (within (kept.list c c .between) outer)
      else some (item k outer c)
    | .leading =>
      if c = '-' then some (within (kept.list c c .leading) outer)
      else if c = ']' ∧ k.set = .empty then some (within (kept.list c c .between) outer)
      else some (item k outer c)
    | .between => some (item k outer c)
    | .low low =>
      if c = '-' then some (within { kept with place := .dash low } outer)
      else some (item k outer c)
    | .dash low =>
      if c = ']' then some (close (k.list '-' '-' .between) outer)
      else if c = '-' then some (within (kept.combine .difference) outer)
      else if c = '\\' then some (within { kept with place := .escaped (some low) } outer)
      else return within (← kept.listRange low c) outer
    | .mark m =>
      if c = m then (Combination.ofMark? m).map fun op => within (kept.combine op) outer
      else if m = '-' then some (item (k.list m m .between) outer c)
      else if c = '-' then some (within (kept.list m m (.dash m)) outer)
      else some (item (k.list m m .between) outer c)
    | .escaped low => do
      let c ← escapedChar? c
      match low with
      | none => return within (kept.list c c (.low c)) outer
      | some low => return within (← kept.listRange low c) outer

end Brackets

end DataExpr.Regex
