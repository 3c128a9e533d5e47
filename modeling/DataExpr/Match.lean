import DataExpr.Findings

/-!
# Matches

A `Match` is a value that was found in a focus, together with a way to rebuild the whole focus around
a new value in its place.  `Match.inside` puts one match inside another: the value is the inner one,
and replacing it goes out through both.

A `Matcher` gives the lazy sequence of matches in a focus.  Making the sequence is itself a run, since
some matchers look at the focus when the sequence is made and not when its first item is asked for.
-/

namespace DataExpr

/-- A value found in a focus and how to put another one in its place. -/
structure Match where
  value : Value
  /-- The focus with a new value in the place of the one that was found. -/
  replace : Value → Eval Value

/-- Lazy sequences of matches. -/
abbrev Matches := Findings Match

/-- What gives the matches in a focus. -/
abbrev Matcher := Value → Run Matches

namespace Match

/-- The focus itself; a new value takes its place entirely. -/
def whole (focus : Value) : Match := ⟨focus, fun new => return new⟩

/-- A match that was found in the value of another one. -/
def inside (outer inner : Match) : Match :=
  ⟨inner.value, fun new => do outer.replace (← inner.replace new)⟩

@[simp] theorem value_whole (v : Value) : (whole v).value = v := rfl

@[simp] theorem value_inside (outer inner : Match) : (outer.inside inner).value = inner.value := rfl

end Match

namespace Matches

/-- The single match that is the focus itself. -/
def whole (focus : Value) : Matches := .single (.whole focus)

end Matches

end DataExpr
