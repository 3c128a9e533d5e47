import DataExpr.Expr.ParseError

/-!
# Errors of turning expressions into patterns

A `CompileError` says why a tree has no pattern and points at the node to blame.  A `SourceError` is
any reason why a text has none: it does not read as a tree, or the tree has no pattern.
-/

namespace DataExpr

/-- Why a tree has no pattern. -/
inductive CompileError.Kind where
  | bareIdentifier (name : String)
  | missingInterpolation (index : UInt64) (supplied : Nat)
  | invalidInterpolation (index : UInt64) (found position : String)
  | duplicateRest
  | restNotLast
  | invalidLiteral (found position : String)
deriving DecidableEq

/-- Why a tree has no pattern, and the node to blame. -/
structure CompileError where
  kind : CompileError.Kind
  span : Span
deriving DecidableEq

/-- The message for people. -/
def CompileError.message (e : CompileError) : String :=
  match e.kind with
  | .bareIdentifier name =>
    "bare identifier `" ++ name ++ "`; use `." ++ name ++ "` for a key or \"" ++ name ++
      "\" for a string"
  | .missingInterpolation index supplied =>
    "placeholder <" ++ toString index.toNat ++ "> has no interpolated item (" ++
      toString supplied ++ " supplied)"
  | .invalidInterpolation index found position =>
    "placeholder <" ++ toString index.toNat ++ "> holds " ++ found ++
      ", which cannot be used as " ++ position
  | .duplicateRest => "object pattern has more than one rest entry"
  | .restNotLast => "rest entry must come last in an array pattern"
  | .invalidLiteral found position => found ++ " literal cannot be used as " ++ position

/-- Why a text has no pattern. -/
inductive SourceError where
  | parse (e : ParseError)
  | compile (e : CompileError)
deriving DecidableEq

namespace SourceError

/-- The message for people. -/
def message : SourceError → String
  | parse e => e.message
  | compile e => e.message

/-- The text to blame. -/
def span : SourceError → Span
  | parse e => e.span
  | compile e => e.span

end SourceError

end DataExpr
