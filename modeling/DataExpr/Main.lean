import DataExpr.Command

/-!
# The program

Runs the command that the arguments ask for.  Everything that decides what is printed is in
`DataExpr.Command`; here inputs are read and outputs written.
-/

namespace DataExpr

/-- The text that bytes stand for. -/
def Reading.ofBytes (bytes : ByteArray) : Reading :=
  match String.fromUTF8? bytes with
  | some text => .ok text
  | none => .error .notText

/-- The text of an input. -/
def Input.read : Input → IO Reading
  | .standard => do
    try
      return .ofBytes (← (← IO.getStdin).readBinToEnd)
    catch e => return .error (.other (toString e))
  | .file path => do
    try
      return .ofBytes (← IO.FS.readBinFile path)
    catch
      | .noFileOrDirectory .. => return .error .notFound
      | .permissionDenied .. => return .error .forbidden
      | e => return .error (.other (toString e))

/-- The outcome of an activity. -/
def Activity.perform : Activity → IO Outcome
  | finished outcome => return outcome
  | awaiting input resume => return resume (← input.read)

end DataExpr

/-- Run the program. -/
def main (arguments : List String) : IO UInt32 := do
  let outcome ← (DataExpr.Command.call arguments).perform
  IO.print outcome.output
  IO.eprint outcome.errors
  return outcome.status
