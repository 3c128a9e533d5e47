import DataExpr.Regex.Program

/-!
# Searching with regular expressions

`Regex.find` gives the first match in a text: the leftmost one, and of those that begin there the
preferred one.  `Regex.spans` gives all matches from left to right that do not overlap; an empty match
directly at the end of the match before it does not count.

The text is read once.  At every place there is a list of `Thread`s, the preferred one first, each of
which is a match that has begun.  All threads first go on until they take a character or are complete
(`settle`).  A thread that comes to an instruction where another one, or it itself, has been at the same
place of the text is given up: whatever it could find, the other one finds, and is preferred.  This is
also why a repetition of the empty text ends.  Then all threads take one character.

A complete thread is a match.  Those after it are given up and no new ones begin, but those before it
are preferred and may still replace it.
-/

namespace DataExpr.Regex

/-- A match that has begun. -/
structure Thread where
  /-- Where it has begun. -/
  start : Nat
  /-- The instruction that comes next. -/
  address : Nat

/-- What a place in a text is an end of. -/
structure Place where
  isStart : Bool
  isStop : Bool

/-- Whether the place is that end of the text. -/
def Place.isAt (p : Place) : Edge → Bool
  | .start => p.isStart
  | .stop => p.isStop

/-- The threads that go on in the place of a thread without taking a character; none if its next
instruction takes one or completes it. -/
def Thread.goOn? (program : Program) (here : Place) (t : Thread) : Option (List Thread) :=
  match program[t.address]? with
  | some .accept | some (.one ..) => none
  | some (.edge e next) => some (if here.isAt e then [⟨t.start, next⟩] else [])
  | some (.jump next) => some [⟨t.start, next⟩]
  | some (.fork first second) => some [⟨t.start, first⟩, ⟨t.start, second⟩]
  | none => some []

theorem count_true_lt {fresh : Array Bool} {a : Nat} (h : fresh[a]? = some true) :
    (fresh.setIfInBounds a false).count true < fresh.count true := by
  obtain ⟨ha, hv⟩ := Array.getElem?_eq_some_iff.mp h
  have hpos : 0 < fresh.count true := Array.count_pos_iff.mpr (hv ▸ Array.getElem_mem ha)
  rw [Array.setIfInBounds_def, dif_pos ha, Array.count_set ha]
  simpa [hv] using Nat.sub_lt hpos Nat.one_pos

/-- The threads that take a character or are complete, after all have gone on to there.  No thread has
been at any of the addresses that are marked as fresh. -/
def settle (program : Program) (here : Place) (fresh : Array Bool) : List Thread → List Thread
  | [] => []
  | t :: waiting =>
    if _h : fresh[t.address]? = some true then
      match t.goOn? program here with
      | none => t :: settle program here (fresh.setIfInBounds t.address false) waiting
      | some ts => settle program here (fresh.setIfInBounds t.address false) (ts ++ waiting)
    else settle program here fresh waiting
termination_by waiting => (fresh.count true, waiting.length)
decreasing_by
  · exact .left _ _ (count_true_lt _h)
  · exact .left _ _ (count_true_lt _h)
  · exact .right _ (Nat.lt_succ_self _)

/-- Whether the thread is complete. -/
def Thread.isComplete (program : Program) (t : Thread) : Bool :=
  program[t.address]? == some .accept

/-- The thread after it has taken the character, if it can. -/
def Thread.take? (program : Program) (c : Char) (t : Thread) : Option Thread :=
  match program[t.address]? with
  | some (.one set next) => if set.contains c then some ⟨t.start, next⟩ else none
  | _ => none

/-- The first match in a text that begins at the index or later, when the given threads have come
there and `found` is the best match so far. -/
def scan (program : Program) (index : Nat) (threads : List Thread) (found : Option (Nat × Nat))
    (rest : List Char) : Option (Nat × Nat) :=
  let threads := if found.isSome then threads else threads ++ [⟨index, 0⟩]
  let ready := settle program ⟨index = 0, rest.isEmpty⟩ (.replicate program.size true) threads
  let running := ready.takeWhile (!·.isComplete program)
  let found :=
    match ready.find? (·.isComplete program) with
    | some t => some (t.start, index)
    | none => found
  match rest with
  | [] => found
  | c :: cs =>
    let moved := running.filterMap (·.take? program c)
    if moved.isEmpty && found.isSome then found else scan program (index + 1) moved found cs

/-- The first match of a program at an index or later, where `rest` is the text from there on. -/
def findFrom (program : Program) (index : Nat) (rest : List Char) : Option (Nat × Nat) :=
  scan program index [] none rest

/-- The first match in a text: the indices where it begins and ends. -/
def find (r : Regex) (text : List Char) : Option (Nat × Nat) := findFrom r.program 0 text

/-- The first match at an index or later that is not empty at the end of the match before it. -/
def findAfter (program : Program) (previous : Option Nat) (index : Nat) (rest : List Char) :
    Option (Nat × Nat) :=
  match findFrom program index rest with
  | none => none
  | some (first, last) =>
    if first = last ∧ previous = some last then
      match rest with
      | [] => none
      | _ :: cs => findFrom program (index + 1) cs
    else some (first, last)

/-- At most `n` matches at an index or later. -/
def spansFrom (program : Program) (previous : Option Nat) (index : Nat) (rest : List Char) :
    Nat → List (Nat × Nat)
  | 0 => []
  | n + 1 =>
    match findAfter program previous index rest with
    | none => []
    | some (first, last) =>
      (first, last) :: spansFrom program (some last) last (rest.drop (last - index)) n

/-- All matches in a text from left to right.  There is at most one for each place where a match may
end. -/
def spans (r : Regex) (text : List Char) : List (Nat × Nat) :=
  spansFrom r.program none 0 text (text.length + 1)

end DataExpr.Regex
