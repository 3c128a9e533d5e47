import DataExpr.Regex

/-!
# Programs of regular expressions

A regular expression is carried out as a program: a list of instructions that refer to each other by
address.  `Regex.program` writes the program of a regex, whose first instruction has the address 0.

Programs are made of pieces (`Piece`).  A piece knows how many instructions it has, and its code can
be written for any address and any place to go on at; the first of its instructions is where it begins,
and there is always one.

Which way a `fork` tries first says which match is preferred.  What can be repeated without taking a
character has its test for another round at its end, so that one round is always made before it
(`Piece.star`); what takes a character in every round has the test at its beginning.
-/

namespace DataExpr

/-- One step of a program. -/
inductive Instruction where
  /-- A match is complete. -/
  | accept
  /-- Take a character of a set. -/
  | one (set : CharSet) (next : Nat)
  /-- Go on only at that end of the text. -/
  | edge (e : Edge) (next : Nat)
  | jump (next : Nat)
  /-- Go on at two addresses, the first one being preferred. -/
  | fork (first second : Nat)
deriving DecidableEq

/-- Instructions by their addresses. -/
abbrev Program := Array Instruction

/-- Code that can be put anywhere. -/
structure Piece where
  size : Nat
  /-- The instructions, when the first has the address `base` and the work goes on at `next`. -/
  code : (base next : Nat) → List Instruction

namespace Piece

/-- Do nothing. -/
def skip : Piece := ⟨1, fun _ next => [.jump next]⟩

/-- Take a character. -/
def one (set : CharSet) : Piece := ⟨1, fun _ next => [.one set next]⟩

/-- Go on only at that end of the text. -/
def edge (e : Edge) : Piece := ⟨1, fun _ next => [.edge e next]⟩

/-- One piece and then another. -/
def andThen (a b : Piece) : Piece :=
  ⟨a.size + b.size, fun base next =>
    a.code base (base + a.size) ++ b.code (base + a.size) next⟩

/-- One piece or another, the first one being preferred. -/
def orElse (a b : Piece) : Piece :=
  ⟨1 + a.size + b.size, fun base next =>
    .fork (base + 1) (base + 1 + a.size) :: a.code (base + 1) next ++
      b.code (base + 1 + a.size) next⟩

/-- Go on inside if that is wanted first, and outside otherwise. -/
def enter (greedy : Bool) (inside outside : Nat) : Instruction :=
  if greedy then .fork inside outside else .fork outside inside

/-- The piece or nothing. -/
def optional (greedy : Bool) (a : Piece) : Piece :=
  ⟨1 + a.size, fun base next => enter greedy (base + 1) next :: a.code (base + 1) next⟩

/-- The piece at least once. -/
def plus (greedy : Bool) (a : Piece) : Piece :=
  ⟨a.size + 1, fun base next => a.code base (base + a.size) ++ [enter greedy base next]⟩

/-- The piece any number of times. -/
def star (greedy consuming : Bool) (a : Piece) : Piece :=
  if consuming then
    ⟨1 + a.size, fun base next => enter greedy (base + 1) next :: a.code (base + 1) base⟩
  else optional greedy (plus greedy a)

/-- The piece `n` times. -/
def times (a : Piece) : Nat → Piece
  | 0 => skip
  | 1 => a
  | n + 1 => a.andThen (times a n)

/-- The piece at most `n` times. -/
def upTo (greedy : Bool) (a : Piece) : Nat → Piece
  | 0 => skip
  | n + 1 => optional greedy (a.andThen (upTo greedy a n))

/-- The piece at least `least` times and at most `most` times. -/
def repeated (least : Nat) (most : Option Nat) (greedy consuming : Bool) (a : Piece) : Piece :=
  match least, most with
  | 0, none => star greedy consuming a
  | 1, none => plus greedy a
  | n + 1, none => (times a n).andThen (plus greedy a)
  | 0, some 1 => optional greedy a
  | least, some most =>
    if most ≤ least then times a least
    else (times a least).andThen (upTo greedy a (most - least))

end Piece

namespace Regex

/-- The piece of a program that a regex stands for. -/
def piece : Regex → Piece
  | empty => .skip
  | one set => .one set
  | edge e => .edge e
  | group _ r => r.piece
  | seq a b => a.piece.andThen b.piece
  | alt a b => a.piece.orElse b.piece
  | repeated least most greedy r => .repeated least most greedy r.isConsuming r.piece

/-- The program that a regex stands for. -/
def program (r : Regex) : Program := (r.piece.code 0 r.piece.size ++ [Instruction.accept]).toArray

end Regex

end DataExpr
