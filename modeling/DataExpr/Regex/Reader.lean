import DataExpr.Regex
import DataExpr.Regex.Class

/-!
# Reading regular expressions

`Regex.read?` reads the usual notation: characters, `.`, classes in brackets (`Regex.Class`), groups in
parentheses (which do not count when they begin with `?:`), `|`, the repetitions `*`, `+`, `?` and a
count or two bounds in braces, a `?` after a repetition to make it prefer shorter matches, `^` or `\A`,
`$` or `\z`, and a backslash before a mark that stands for itself or a letter that stands for a control
character.

The text is read one character at a time.  A `Regex.Reader` holds what has been read: the alternatives
and the current sequence of every group that is open, and the construct that is being read.
-/

namespace DataExpr.Regex

/-- A group that is open, or the whole expression.  The alternatives before the current one and the
parts of the current one are kept latest first. -/
structure Level where
  /-- The number of a group that counts. -/
  number : Option Nat
  alternatives : List Regex
  sequence : List Regex

/-- What the next character belongs to. -/
inductive Mode where
  | plain
  /-- The part has just been repeated within these bounds; a question mark may follow. -/
  | repeated (least : Nat) (most : Option Nat) (part : Regex)
  /-- A group has just been opened. -/
  | opened
  /-- A question mark has been read at the beginning of a group. -/
  | flagged
  | escaped
  /-- Inside braces, where this text has been read, latest first. -/
  | counting (text : List Char)
  | inClass (inner : Class) (outer : List Class)

/-- What has been read of a regular expression. -/
structure Reader where
  outer : List Level
  level : Level
  /-- How many groups that count have been opened. -/
  groups : Nat
  mode : Mode

namespace Reader

/-- The sequence that is being read. -/
def sequenceOf (level : Level) : Regex := sequence level.sequence.reverse

/-- The regex of a level that is complete. -/
def regexOf (level : Level) : Regex :=
  let r := Regex.alternatives (sequenceOf level :: level.alternatives).reverse
  match level.number with
  | some number => .group number r
  | none => r

/-- One more part of the current sequence. -/
def add (r : Reader) (part : Regex) : Reader :=
  { r with level := { r.level with sequence := part :: r.level.sequence }, mode := .plain }

/-- The last part of the sequence repeated within the bounds. -/
def repeatLast (r : Reader) (least : Nat) (most : Option Nat) : Option Reader :=
  match r.level.sequence with
  | [] => none
  | part :: parts =>
    some { r with
      level := { r.level with sequence := repetition least most true part :: parts }
      mode := .repeated least most part }

/-- Take a character that begins a construct into account. -/
def plainStep (r : Reader) (c : Char) : Option Reader :=
  match c with
  | '.' => some (r.add (.one (CharSet.single '\n').complement))
  | '^' => some (r.add (.edge .start))
  | '$' => some (r.add (.edge .stop))
  | '\\' => some { r with mode := .escaped }
  | '[' => some { r with mode := .inClass .opened [] }
  | '(' => some { r with outer := r.level :: r.outer, level := ⟨none, [], []⟩, mode := .opened }
  | ')' =>
    match r.outer with
    | [] => none
    | level :: outer => some (add { r with outer, level } (regexOf r.level))
  | '|' =>
    let alternatives := sequenceOf r.level :: r.level.alternatives
    some { r with level := { r.level with alternatives, sequence := [] }, mode := .plain }
  | '*' => r.repeatLast 0 none
  | '+' => r.repeatLast 1 none
  | '?' => r.repeatLast 0 (some 1)
  | '\x7b' => some { r with mode := .counting [] }
  | c => some (r.add (.one (.single c)))

/-- Begin the contents of a group that counts. -/
def countGroup (r : Reader) : Reader :=
  { r with level := { r.level with number := some r.groups }, groups := r.groups + 1, mode := .plain }

/-! ### Bounds in braces -/

/-- The number that a text denotes, if it has nothing but digits, and blanks around them. -/
def count? (text : List Char) : Option Nat :=
  let digits := (text.dropWhile Char.isWhitespace).takeWhile Char.isDigit
  let rest := (text.dropWhile Char.isWhitespace).dropWhile Char.isDigit
  if digits = [] ∨ !rest.all Char.isWhitespace then none
  else some (digits.foldl (fun n d => 10 * n + (d.toNat - '0'.toNat)) 0)

/-- The bounds that the text in braces denotes: one number for both, or one before a comma and maybe
one after it. -/
def bounds? (text : List Char) : Option (Nat × Option Nat) := do
  let least ← count? (text.takeWhile (· ≠ ','))
  match text.dropWhile (· ≠ ',') with
  | [] => return (least, some least)
  | [_] => return (least, none)
  | _ :: second =>
    let most ← count? second
    if least ≤ most then return (least, some most) else none

/-! ### Steps -/

/-- Take one character into account. -/
def step (r : Reader) (c : Char) : Option Reader :=
  match r.mode with
  | .plain => r.plainStep c
  | .repeated least most part =>
    if c = '?' then
      some (add { r with level := { r.level with sequence := r.level.sequence.drop 1 } }
        (repetition least most false part))
    else { r with mode := .plain }.plainStep c
  | .opened => if c = '?' then some { r with mode := .flagged } else r.countGroup.plainStep c
  | .flagged => if c = ':' then some { r with mode := .plain } else none
  | .escaped =>
    match c with
    | 'A' => some (r.add (.edge .start))
    | 'z' => some (r.add (.edge .stop))
    | c => (escapedChar? c).map fun c => r.add (.one (.single c))
  | .counting text =>
    if c = '\x7d' then do
      let (least, most) ← bounds? text.reverse
      r.repeatLast least most
    else some { r with mode := .counting (c :: text) }
  | .inClass inner outer =>
    match (Brackets.within inner outer).step c with
    | none => none
    | some (.within inner outer) => some { r with mode := .inClass inner outer }
    | some (.complete set) => some (r.add (.one set))

/-- The regex when the whole text has been read. -/
def finish? (r : Reader) : Option Regex :=
  match r.outer, r.mode with
  | [], .plain | [], .repeated .. => some (regexOf r.level)
  | _, _ => none

end Reader

/-- The regular expression that a text denotes. -/
def read? (source : String) : Option Regex := do
  let reader ← source.toList.foldlM Reader.step ⟨[], ⟨none, [], []⟩, 0, .plain⟩
  reader.finish?

end DataExpr.Regex
