/-!
# Spans of source text

A `Span` is a half-open range of byte offsets into the text of an expression.  Tokens, tree nodes and
errors carry one, so that a diagnostic can point at the piece of text it is about.

Offsets are kept below `2 ^ 32`.  `Span.ofRange` brings any pair of offsets into that range by
saturation, so that an offset past the limit still points at the end of what can be addressed, and
`Span.merge` gives the smallest span that covers two others.
-/

namespace DataExpr

/-- The bytes from `start` up to, but not including, `stop`. -/
structure Span where
  start : Nat
  stop : Nat
deriving DecidableEq, Inhabited

namespace Span

/-- The largest offset that a span can hold. -/
def limit : Nat := UInt32.size - 1

/-- The span of a node that no text was read for. -/
def dummy : Span := ⟨0, 0⟩

/-- The span of a range of offsets; an offset past the limit becomes the limit. -/
def ofRange (start stop : Nat) : Span := ⟨min start limit, min stop limit⟩

/-- The smallest span that covers both. -/
def merge (a b : Span) : Span := ⟨min a.start b.start, max a.stop b.stop⟩

/-- The two offsets with two dots between them. -/
def text (s : Span) : String := toString s.start ++ ".." ++ toString s.stop

@[simp] theorem merge_self (a : Span) : a.merge a = a := by simp [merge]

theorem merge_comm (a b : Span) : a.merge b = b.merge a := by
  simp [merge, Nat.min_comm, Nat.max_comm]

theorem merge_assoc (a b c : Span) : (a.merge b).merge c = a.merge (b.merge c) := by
  simp [merge, Nat.min_assoc, Nat.max_assoc]

/-- Offsets within the limit are kept as they are. -/
theorem ofRange_of_le {start stop : Nat} (h : start ≤ limit) (h' : stop ≤ limit) :
    ofRange start stop = ⟨start, stop⟩ := by
  simp [ofRange, Nat.min_eq_left h, Nat.min_eq_left h']

end Span

end DataExpr
