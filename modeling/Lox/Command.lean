import Lox.Diagnostic.Excerpt
import Lox.Prompt
import Lox.Session
import Lox.Syntax.Printed
import Lox.Token.Listing

/-!
Contract: the command `lox`, apart from reading and writing.

With a script the command lists its tokens, prints its tree or runs it, and its
exit code tells how that went. Without one it treats the entries of a
conversation in turn, whatever their outcome. What a program prints, listings
and trees go to the standard output; diagnostics go to the standard error, each
with an excerpt of the source that it is about.

Owns: both ways of working, the options of the command. Does not own: input and
output themselves.
-/

namespace Lox.Command

/-- What is written to the two outputs of a process. -/
structure Transcript where
  stdout : String
  stderr : String
deriving DecidableEq, Repr

/-- Nothing written. -/
def Transcript.empty : Transcript := ⟨"", ""⟩

/-- One transcript after the other. -/
def Transcript.append (first second : Transcript) : Transcript :=
  ⟨first.stdout ++ second.stdout, first.stderr ++ second.stderr⟩

/-- Diagnostics with excerpts of their source, one after the other. -/
def excerpts (source : String) (diagnostics : List Diagnostic) : String :=
  String.join (diagnostics.map (Diagnostic.render source))

/-- Lists the tokens of a source. -/
def listTokens (source : String) : Status × Transcript :=
  let scanned := Scan.of source
  (if scanned.errors.isEmpty then .ok else .staticError,
    ⟨String.join (scanned.tokens.map (·.listing ++ "\n")),
      excerpts source (scanned.errors.map ScanError.diagnostic)⟩)

/-- Prints the tree of a source. -/
def printTree (source : String) : Status × Transcript :=
  let parsed := ParsedSource.of source
  match parsed.program with
  | some program => (.ok, ⟨program.printed ++ "\n", ""⟩)
  | none => (.staticError, ⟨"", excerpts source parsed.diagnostics⟩)

/-- What a report on a source puts out. -/
def transcriptOf (source : String) (report : Report) : Transcript :=
  ⟨report.output, excerpts source report.diagnostics⟩

/-- Treats a script. -/
def runScript (budget : Nat) (mode : Mode) (source : String) (session : Session) :
    Status × Transcript :=
  match mode with
  | .tokens => listTokens source
  | .ast => printTree source
  | .eval =>
      let report := (session.run budget source).1
      (report.status, transcriptOf source report)

/-- Treats an entry of a conversation. A blank one is passed over. -/
def runEntry (budget : Nat) (mode : Mode) (source : String) (session : Session) :
    Transcript × Session :=
  if Text.allBlank source then (.empty, session)
  else
    match mode with
    | .tokens => ((listTokens source).2, session)
    | .ast => ((printTree source).2, session)
    | .eval =>
        let (report, session) := session.runEntry budget source
        (transcriptOf source report, session)

/-- Treats an event of a conversation. -/
def handle (budget : Nat) (session : Session) : Prompt.Event → Transcript × Session
  | .entry mode source => runEntry budget mode source session
  | .unknownDirective text => (⟨"", "Unknown directive '" ++ text ++ "'\n"⟩, session)
  | _ => (.empty, session)

/-- Treats the events of a conversation in turn. -/
def handleAll (budget : Nat) : Session → List Prompt.Event → Transcript
  | _, [] => .empty
  | session, event :: rest =>
      let (written, session) := handle budget session event
      written.append (handleAll budget session rest)

/-- Holds a conversation over lines of input. -/
def converse (budget : Nat) (mode : Mode) (lines : List String) (session : Session) :
    Transcript :=
  handleAll budget session (Prompt.events mode lines)

/-- Why a script that does not exist cannot be read. -/
def missingFile : String := "No such file or directory (os error 2)"

/-- What is said about a script that cannot be read. -/
def unreadableScript (path reason : String) : String :=
  "Error: could not read script '" ++ path ++ "'\n\nCaused by:\n    " ++ reason ++ "\n"

/-! ## Options -/

/-- The steps that the command grants a statement, more than anyone waits for. -/
def patience : Nat := 1000000000000000

/-- What the command is asked to do. -/
structure Options where
  mode : Mode
  callLimit : Nat
  script : Option String
deriving DecidableEq, Repr

/-- A conversation that runs its entries, with the usual depth limit. -/
def Options.default : Options := ⟨.eval, defaultCallLimit, none⟩

/-- The number that a text of decimal digits stands for. -/
def count? (text : String) : Option Nat :=
  let digits := text.toList
  if digits.isEmpty || !digits.all Char.isDigit then none
  else some (Number.naturalOfDigits digits)

/-- Reads the arguments of the command; none if they are not understood. -/
def Options.read (options : Options) : List String → Option Options
  | [] => some options
  | "--mode" :: name :: rest =>
      match Mode.ofName? name with
      | some mode => read { options with mode := mode } rest
      | none => none
  | "--max-call-depth" :: number :: rest =>
      match count? number with
      | some limit => read { options with callLimit := limit } rest
      | none => none
  | path :: rest =>
      if options.script.isSome || path.startsWith "-" then none
      else read { options with script := some path } rest

end Lox.Command
