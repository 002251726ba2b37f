import Lox.Binding.Scope
import Lox.Fault
import Lox.Lexeme

/-!
Contract: diagnostics, the common form of all errors.

A diagnostic says in which stage an error was found, where it stands and what is
wrong. Errors of the grammar and of the binding rules also name the lexeme that
they are about, or the end of the source.
-/

namespace Lox

/-- Which stage finds an error. -/
inductive Stage where
  | scan
  | parse
  | resolve
  | runtime
  /-- A stack overflow or a breach. -/
  | fatal
deriving DecidableEq, Repr

/-- The name of a stage. -/
def Stage.label : Stage → String
  | .scan => "scan"
  | .parse => "parse"
  | .resolve => "resolve"
  | .runtime => "runtime"
  | .fatal => "fatal"

/-- An error as it is reported. The location names the lexeme, after a blank, or
is empty. -/
structure Diagnostic where
  stage : Stage
  span : Span
  location : String
  message : String
deriving DecidableEq, Repr

/-- The diagnostic with its line and location, as one line of text. -/
def Diagnostic.display (diagnostic : Diagnostic) : String :=
  "[line " ++ toString diagnostic.span.line ++ "] Error" ++ diagnostic.location ++ ": " ++
    diagnostic.message

/-- The diagnostic of a lexical error. -/
def ScanError.diagnostic (error : ScanError) : Diagnostic :=
  ⟨.scan, error.span, "", error.message⟩

/-- The diagnostic of a syntax error. -/
def SyntaxError.diagnostic (error : SyntaxError) : Diagnostic :=
  ⟨.parse, error.span, error.place.text, error.message⟩

/-- The diagnostic of a binding error. -/
def BindingError.diagnostic (error : BindingError) : Diagnostic :=
  ⟨.resolve, error.span, error.place.text, error.message⟩

/-- The diagnostic of a fault. -/
def Fault.diagnostic (fault : Fault) : Diagnostic :=
  ⟨if fault.isFatal then .fatal else .runtime, fault.span, "", fault.message⟩

end Lox
