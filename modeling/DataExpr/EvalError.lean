/-!
# Errors of evaluation

Failing to match is no error.  An `EvalError` means that data has the wrong shape for what is to be
done with it: a replacement of the wrong type or size, an index out of range, or whatever a function
of the host reports.
-/

namespace DataExpr

/-- Why a value could not be computed. -/
inductive EvalError where
  | typeMismatch (expected got : String)
  | indexOutOfBounds (index : Int) (length : Nat)
  | arityMismatch (expected got : Nat)
  /-- An error of the host, with its own message. -/
  | custom (message : String)
deriving DecidableEq

/-- The message for people. -/
def EvalError.message : EvalError → String
  | typeMismatch expected got => "type mismatch: expected " ++ expected ++ ", got " ++ got
  | indexOutOfBounds index length =>
    "index " ++ toString index ++ " out of bounds for length " ++ toString length
  | arityMismatch expected got =>
    "replacement has " ++ toString got ++ " elements, expected " ++ toString expected
  | custom message => message

end DataExpr
