/-!
# Sets of characters

A `CharSet` is a set of code points as ranges in ascending order that neither meet nor touch, so that
equal sets are equal as data (as long as their ranges were put in by `CharSet.insert`).
-/

namespace DataExpr

/-- A set of characters, given by ranges of code points of which both ends are included. -/
structure CharSet where
  ranges : List (Nat × Nat)
deriving DecidableEq

namespace CharSet

/-- The set without characters. -/
def empty : CharSet := ⟨[]⟩

/-- Whether the character is in the set. -/
def contains (s : CharSet) (c : Char) : Bool := s.ranges.any fun r => r.1 ≤ c.toNat && c.toNat ≤ r.2

/-- Ranges with one more, which is united with those that it meets or touches. -/
def insertRange (first last : Nat) : List (Nat × Nat) → List (Nat × Nat)
  | [] => [(first, last)]
  | (a, b) :: ranges =>
    if last + 1 < a then (first, last) :: (a, b) :: ranges
    else if b + 1 < first then (a, b) :: insertRange first last ranges
    else insertRange (min first a) (max last b) ranges

/-- The set with the characters from `first` to `last`. -/
def insert (s : CharSet) (first last : Char) : CharSet :=
  ⟨insertRange first.toNat last.toNat s.ranges⟩

/-- The set of a single character. -/
def single (c : Char) : CharSet := empty.insert c c

/-- The set of the characters of ranges. -/
def ofRanges (ranges : List (Char × Char)) : CharSet :=
  ranges.foldl (fun s r => s.insert r.1 r.2) empty

/-- Whether the set has exactly one character. -/
def isSingle (s : CharSet) : Bool :=
  match s.ranges with
  | [(a, b)] => a == b
  | _ => false

/-- All characters of either set. -/
def union (s t : CharSet) : CharSet :=
  ⟨t.ranges.foldl (fun ranges r => insertRange r.1 r.2 ranges) s.ranges⟩

/-- The largest code point. -/
def maxCode : Nat := 0x10ffff

/-- The ranges between the given ones, from a code point on. -/
def gaps (low : Nat) : List (Nat × Nat) → List (Nat × Nat)
  | [] => if low ≤ maxCode then [(low, maxCode)] else []
  | (a, b) :: ranges => if low < a then (low, a - 1) :: gaps (b + 1) ranges else gaps (b + 1) ranges

/-- The characters that are not in the set. -/
def complement (s : CharSet) : CharSet := ⟨gaps 0 s.ranges⟩

/-- The characters of both sets. -/
def intersection (s t : CharSet) : CharSet := (s.complement.union t.complement).complement

/-- The characters of the first set that are not in the second. -/
def difference (s t : CharSet) : CharSet := s.intersection t.complement

/-- The characters of exactly one of the sets. -/
def symmetricDifference (s t : CharSet) : CharSet := (s.union t).difference (s.intersection t)

end CharSet

end DataExpr
