import DataExpr.Diagnostic
import DataExpr.Document.Reader
import DataExpr.Expr.Document
import DataExpr.Pattern.Compile
import DataExpr.Text.Quoted
import DataExpr.Value.Document

/-!
# Commands

A `Command` is one call of the command line: run an expression over a JSON document, show how an
expression is read, or say how the program is used.  `Command.ofArguments` reads it off the arguments.

`Command.start` carries a command as far as it goes without its document.  Everything that can be
found wrong before is found first: the expression, then the replacement.  What is left is an
`Activity`, which either is finished or needs the text of one input to go on; so a command reads at
most one input, and none if it cannot use it.  The `Outcome` is the exit status and the text on both
outputs.

Matches are printed as they are found, so those before an error are printed in spite of it.
-/

namespace DataExpr

/-! ### Inputs and outcomes -/

/-- A text to be read. -/
inductive Input where
  | standard
  | file (path : String)
deriving DecidableEq

/-- Why an input has no text. -/
inductive InputError where
  | notFound
  | forbidden
  /-- It holds bytes that are not UTF-8. -/
  | notText
  | other (reason : String)

/-- What reading an input gave. -/
abbrev Reading := Except InputError String

namespace InputError

/-- The reason in the words of the system. -/
def reason : InputError → String
  | notFound => "not found"
  | forbidden => "permission denied"
  | notText => "stream did not contain valid UTF-8"
  | other reason => reason

/-- The message for people. -/
def message (e : InputError) : Input → String
  | .standard => "error reading standard input: " ++ e.reason
  | .file path =>
    match e with
    | notFound => "cannot find file '" ++ path ++ "'"
    | forbidden => "permission denied reading '" ++ path ++ "'"
    | notText => "'" ++ path ++ "' contains invalid UTF-8 data"
    | other reason => "error reading '" ++ path ++ "': " ++ reason

end InputError

/-- What a command leaves behind. -/
structure Outcome where
  status : UInt32
  output : String
  errors : String
deriving DecidableEq

namespace Outcome

/-- The status of bad input of any kind. -/
def errorStatus : UInt32 := 2

/-- Success with a text. -/
def success (output : String) : Outcome := ⟨0, output, ""⟩

/-- Failure with a message. -/
def failure (message : String) : Outcome := ⟨errorStatus, "", message ++ "\n"⟩

/-- The lines up to the first failure. -/
def ofLines : List (Except String String) → Outcome
  | [] => success ""
  | .error message :: _ => failure message
  | .ok line :: lines =>
    let rest := ofLines lines
    { rest with output := line ++ "\n" ++ rest.output }

end Outcome

/-- How far a command has come. -/
inductive Activity where
  | finished (outcome : Outcome)
  /-- The text of an input is needed to go on. -/
  | awaiting (input : Input) (resume : Reading → Outcome)

/-- The outcome when inputs give what `read` says. -/
def Activity.finish (read : Input → Reading) : Activity → Outcome
  | finished outcome => outcome
  | awaiting input resume => resume (read input)

/-! ### Commands -/

/-- What the program is asked to do. -/
inductive Command where
  /-- Print the matches, or the first only. -/
  | find (source : String) (document : Option String) (firstOnly : Bool)
  /-- Tell by the status whether there is a match. -/
  | test (source : String) (document : Option String)
  /-- Replace the first match. -/
  | replace (source replacement : String) (document : Option String)
  /-- Replace every match. -/
  | replaceAll (source replacement : String) (document : Option String)
  /-- Show the tree of an expression. -/
  | parse (source : String)
  /-- Show the tokens of an expression. -/
  | lex (source : String)
  | help
  | version
deriving DecidableEq

/-- Why arguments are no command. -/
inductive UsageError where
  /-- The command of that name needs more arguments. -/
  | incomplete (name : String)
  | unknown (name : String)
deriving DecidableEq

namespace Command

/-! #### Texts -/

/-- How the program is used. -/
def usage : String :=
  "datex - data expressions over JSON documents\n\n" ++
  "Usage: datex <command> [options]\n\n" ++
  "Commands:\n" ++
  "  match <expr> [file]            Print every match, one JSON value per line\n" ++
  "  test <expr> [file]             Exit 0 if the expression matches, 1 if not\n" ++
  "  replace <expr> <json> [file]   Replace the first match with <json>\n" ++
  "  rewrite <expr> <json> [file]   Replace every match with <json>\n" ++
  "  parse <expr>                   Print the syntax tree as JSON\n" ++
  "  lex <expr>                     Print the token stream\n" ++
  "  help                           Show this help message\n" ++
  "  version                        Show version information\n\n" ++
  "Match options:\n" ++
  "  --first, -1         Print only the first match\n\n" ++
  "Documents are read from [file], or from standard input when it is\n" ++
  "omitted or `-`. Errors exit with status 2.\n\n" ++
  "Set RUST_LOG (e.g. RUST_LOG=debug) for diagnostic logging.\n"

/-- The name and number of the program. -/
def versionText : String := "datex 0.1.0-alpha.1\n"

/-- How the command of that name is used. -/
def usageOf (name : String) : String :=
  match name with
  | "match" => "Usage: datex match <expr> [file] [--first]\n"
  | "test" =>
    "Usage: datex test <expr> [file]\n\n" ++
    "Exits with status 0 when the expression matches, 1 otherwise.\n"
  | "replace" | "rewrite" =>
    "Usage: datex " ++ name ++ " <expr> <json> [file]\n\n" ++
    "Example:\n  datex " ++ name ++ " '.users * .active' 'false' users.json\n"
  | _ => "Usage: datex " ++ name ++ " <expr>\n"

/-- The outcome for arguments that are no command. -/
def refuse : UsageError → Outcome
  | .incomplete name => ⟨Outcome.errorStatus, "", usageOf name⟩
  | .unknown name => ⟨Outcome.errorStatus, usage, "Unknown command: " ++ name ++ "\n\n"⟩

/-! #### Arguments -/

/-- Whether the argument asks for the first match only. -/
def isFirstOption (argument : String) : Bool := argument == "--first" || argument == "-1"

/-- The command that arguments ask for.  Arguments past those that a command needs are ignored, and
the option for the first match may stand anywhere among the arguments of the command that has it. -/
def ofArguments : List String → Except UsageError Command
  | [] => .ok help
  | name :: arguments =>
    match name, arguments with
    | "match", arguments =>
      match arguments.filter (!isFirstOption ·) with
      | source :: more => .ok (find source more.head? (arguments.any isFirstOption))
      | [] => .error (.incomplete name)
    | "test", source :: more => .ok (test source more.head?)
    | "replace", source :: replacement :: more => .ok (replace source replacement more.head?)
    | "rewrite", source :: replacement :: more => .ok (replaceAll source replacement more.head?)
    | "parse", source :: _ => .ok (parse source)
    | "lex", source :: _ => .ok (lex source)
    | "help", _ | "--help", _ | "-h", _ => .ok help
    | "version", _ | "--version", _ | "-V", _ => .ok version
    | name, _ =>
      if ["test", "replace", "rewrite", "parse", "lex"].contains name then
        .error (.incomplete name)
      else .error (.unknown name)

/-! #### Work -/

/-- Work on documents that may fail with a message. -/
abbrev Work := ExceptT String Run

/-- The pattern of an expression without placeholders. -/
def patternOf (source : String) : Except String Pattern :=
  match Pattern.ofSource source [] with
  | .ok p => .ok p
  | .error e => .error (e.diagnostic source).render

/-- The document that a text holds; `what` names the text in the message. -/
def documentOf (text what : String) : Except String Document :=
  match Document.read? text with
  | some d => .ok d
  | none => .error ("invalid JSON in " ++ what ++ ": not a JSON document")

/-- The value of a document. -/
def load (d : Document) : Work Value := ExceptT.lift (Value.ofDocument d)

/-- The result of an evaluation. -/
def evaluated {α : Type} (e : Eval α) : Work α := e.adapt fun e => "error: " ++ e.message

/-- The text of a value as a document. -/
def written (layout : Document → String) (v : Value) : Except String String :=
  match v.toDocument Cells.none with
  | .ok d => .ok (layout d)
  | .error e => .error ("error: " ++ e.message)

/-- The outcome of work, which starts without cells and containers. -/
def outcomeOf (work : Work Outcome) : Outcome :=
  match (work.run Cells.none ⟨0, #[]⟩).1 with
  | .ok outcome => outcome
  | .error message => .failure message

/-- Go on with the value of the document at a path, or of standard input without a path. -/
def withDocument (path : Option String) (work : Value → Work Outcome) : Activity :=
  let input :=
    match path with
    | none => .standard
    | some path => if path = "-" then .standard else .file path
  .awaiting input fun reading =>
    match reading with
    | .error e => .failure (e.message input)
    | .ok text =>
      match documentOf text (path.getD "standard input") with
      | .error message => .failure message
      | .ok d => outcomeOf (do work (← load d))

/-- The first match of a value as a line, if there is one. -/
def printFirst (p : Pattern) (document : Value) : Work Outcome := do
  match ← evaluated (p.first document) with
  | some found => return .ofLines [written Document.compact found]
  | none => return .success ""

/-- The matches of a value as lines. -/
def printAll (p : Pattern) (document : Value) : Work Outcome := do
  let found ← ExceptT.lift (do (← p.matchesIn document).toList)
  return .ofLines (found.map fun
    | .ok m => written Document.compact m.value
    | .error e => .error ("error: " ++ e.message))

/-- The status for whether a value has a match. -/
def printTest (p : Pattern) (document : Value) : Work Outcome := do
  let isMatch ← evaluated (p.test document)
  return ⟨if isMatch then 0 else 1, "", ""⟩

/-- The value with one edit by a replacement, as text with line breaks. -/
def printEdited (edit : Value → Value → Eval Value) (replacement : Document) (document : Value) :
    Work Outcome := do
  let new ← load replacement
  let edited ← evaluated (edit document new)
  return .ofLines [written Document.pretty edited]

/-- An edit of the document at a path. -/
def startEdit (source replacement : String) (path : Option String)
    (edit : Pattern → Value → Value → Eval Value) : Activity :=
  match patternOf source with
  | .error message => .finished (.failure message)
  | .ok p =>
    match documentOf replacement "replacement" with
    | .error message => .finished (.failure message)
    | .ok d => withDocument path (printEdited (edit p) d)

/-- The tokens of an expression, a line for each. -/
def tokenReport (source : String) : String :=
  let tokens := Token.scan source
  "Tokens for " ++ Text.quoted source ++ " (" ++ toString tokens.length ++ " tokens):\n" ++
    String.join (tokens.map fun t => "  " ++ t.listing ++ "\n")

/-- Carry a command as far as it goes without the text of an input. -/
def start : Command → Activity
  | find source path firstOnly =>
    match patternOf source with
    | .error message => .finished (.failure message)
    | .ok p => withDocument path (if firstOnly then printFirst p else printAll p)
  | test source path =>
    match patternOf source with
    | .error message => .finished (.failure message)
    | .ok p => withDocument path (printTest p)
  | replace source replacement path => startEdit source replacement path Pattern.replace
  | replaceAll source replacement path =>
    startEdit source replacement path fun p document new =>
      p.editAll document fun _ => return new
  | parse source =>
    .finished <| match Expr.read source with
    | .ok e => .success (e.toDocument.pretty ++ "\n")
    | .error e => .failure ((SourceError.parse e).diagnostic source).render
  | lex source => .finished (.success (tokenReport source))
  | help => .finished (.success usage)
  | version => .finished (.success versionText)

/-- What the arguments ask for, as far as it goes without the text of an input. -/
def call (arguments : List String) : Activity :=
  match ofArguments arguments with
  | .ok command => command.start
  | .error e => .finished (refuse e)

end Command

end DataExpr
