import DataExpr.CharSet

/-!
# Regular expressions

A `Regex` is the tree of a regular expression.  Trees are built by `Regex.sequence`,
`Regex.alternatives` and `Regex.repetition`, which keep them in a simple form: sequences and
alternatives are not nested without a group between them, and

* parts that are nothing are left out of a sequence;
* alternatives that are one character each are a set of characters;
* parts that all alternatives begin with stand once, before them;
* what can only match the empty text is not repeated more than once.

The form is part of the meaning, because it decides which of several matches at one place is
preferred (`DataExpr.Regex.Program`).
-/

namespace DataExpr

/-- An end of a text. -/
inductive Edge where
  | start
  | stop
deriving DecidableEq

/-- A regular expression. -/
inductive Regex where
  /-- The empty text. -/
  | empty
  /-- One character of a set. -/
  | one (set : CharSet)
  /-- The empty text at that end of the whole text. -/
  | edge (e : Edge)
  /-- A group; they are counted from left to right. -/
  | group (number : Nat) (r : Regex)
  | seq (a b : Regex)
  /-- Either of two, the first one being preferred. -/
  | alt (a b : Regex)
  /-- At least `least` times and at most `most` times if there is a bound, as often as possible if it is
  greedy and as seldom as possible otherwise. -/
  | repeated (least : Nat) (most : Option Nat) (greedy : Bool) (r : Regex)
deriving DecidableEq

namespace Regex

/-! ### Lengths of matches -/

/-- Whether every match has a character. -/
def isConsuming : Regex → Bool
  | empty | edge _ => false
  | one _ => true
  | group _ r => r.isConsuming
  | seq a b => a.isConsuming || b.isConsuming
  | alt a b => a.isConsuming && b.isConsuming
  | repeated least _ _ r => 0 < least && r.isConsuming

/-- Whether no match has a character. -/
def isHollow : Regex → Bool
  | empty | edge _ => true
  | one _ => false
  | group _ r | repeated _ _ _ r => r.isHollow
  | seq a b | alt a b => a.isHollow && b.isHollow

/-! ### Building -/

/-- What a sequence consists of. -/
def parts : Regex → List Regex
  | empty => []
  | seq a b => a :: parts b
  | r => [r]

/-- What an alternative consists of. -/
def branches : Regex → List Regex
  | alt a b => a :: branches b
  | r => [r]

/-- The regexes one after the other, as they are. -/
def joined : List Regex → Regex
  | [] => empty
  | [r] => r
  | r :: rs => seq r (joined rs)

/-- Any of the regexes, as they are. -/
def anyOf : List Regex → Regex
  | [] => empty
  | [r] => r
  | r :: rs => alt r (anyOf rs)

/-- The regexes one after the other. -/
def sequence (rs : List Regex) : Regex := joined (rs.flatMap parts)

/-- The set of characters, if the regex is one character of a set. -/
def set? : Regex → Option CharSet
  | one set => some set
  | _ => none

/-- The set that alternatives of one character make up together; single characters are not put
together with sets of several. -/
def unitedSet? (rs : List Regex) : Option CharSet := do
  let sets ← rs.mapM set?
  if sets.all (·.isSingle) || sets.all (!·.isSingle) then return sets.foldl .union .empty else none

/-- The members that both lists begin with. -/
def commonFront : List Regex → List Regex → List Regex
  | a :: as, b :: bs => if a = b then a :: commonFront as bs else []
  | _, _ => []

/-- The parts that all alternatives begin with.  There are none unless each is a sequence. -/
def sharedFront (rs : List Regex) : List Regex :=
  match rs.map parts with
  | ps :: pss => if (ps :: pss).all (1 < ·.length) then pss.foldl commonFront ps else []
  | [] => []

/-- Any of the regexes, where shared parts are looked for at most `n` times. -/
def alternativesWithin (n : Nat) (rs : List Regex) : Regex :=
  let rs := rs.flatMap branches
  match rs with
  | [r] => r
  | rs =>
    match unitedSet? rs with
    | some set => one set
    | none =>
      match n, sharedFront rs with
      | 0, _ | _, [] => anyOf rs
      | n + 1, front =>
        sequence (front ++ [alternativesWithin n (rs.map fun r => joined (r.parts.drop front.length))])

/-- The number of nodes. -/
def size : Regex → Nat
  | empty | one _ | edge _ => 1
  | group _ r | repeated _ _ _ r => r.size + 1
  | seq a b | alt a b => a.size + b.size + 1

/-- Any of the regexes, the ones before being preferred. -/
def alternatives (rs : List Regex) : Regex := alternativesWithin (joined rs).size rs

/-- The regex repeated. -/
def repetition (least : Nat) (most : Option Nat) (greedy : Bool) (r : Regex) : Regex :=
  let (least, most) :=
    if r.isHollow then (min least 1, some (min (most.getD 1) 1)) else (least, most)
  if least = 0 ∧ most = some 0 then empty
  else if least = 1 ∧ most = some 1 then r
  else repeated least most greedy r

end Regex

end DataExpr
