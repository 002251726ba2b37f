import Lox.Diagnostic
import Lox.Text

/-!
Contract: diagnostics with the source line that they are about.

An excerpt shows the message, the place, the source line under its number, and
carets under the span. Tabs before the span are kept, so that the carets stand
below it. Some messages are followed by a hint.
-/

namespace Lox

/-- A hint on what to do about a message, where there is one. -/
def hintFor (message : String) : Option String :=
  if message.startsWith "Expect ';'" then some "every statement ends with ';'"
  else if message = Fault.Violation.operandsNotAddable.message then
    some "'+' does not convert between numbers and strings"
  else if message = BindingError.Cause.ownInitializer.message then
    some "give the new variable a different name"
  else if message.startsWith "Undefined variable" then
    some "declare it with 'var' before it is used"
  else if message = Fault.Violation.notCallable.message then
    some "only functions, methods and classes can be followed by '(...)'"
  else none

/-- So many copies of a character. -/
def repeated (count : Nat) (character : Char) : String :=
  String.ofList (List.replicate count character)

/-- The source line of this number, empty if there is none. Number zero stands
for the first line. -/
def sourceLine (source : String) (number : Nat) : String :=
  ((Text.lines source)[number - 1]?).getD ""

/-- What stands under a source line before a column: its tabs, and blanks. -/
def underlinePadding (line : String) (column : Nat) : String :=
  String.ofList ((line.toList.take (column - 1)).map fun character =>
    if character = '\t' then '\t' else ' ')

/-- The carets under a span, at least one. -/
def carets (length : Nat) : String := repeated (max length 1) '^'

/-- The diagnostic with an excerpt of the source. -/
def Diagnostic.render (source : String) (diagnostic : Diagnostic) : String :=
  let span := diagnostic.span
  let number := toString span.line
  let gutter := repeated number.length ' '
  let line := sourceLine source span.line
  let hint := match hintFor diagnostic.message with
    | none => ""
    | some hint => gutter ++ " |\n" ++ gutter ++ " = hint: " ++ hint ++ "\n"
  "error[" ++ diagnostic.stage.label ++ "]: " ++ diagnostic.message ++ "\n" ++
    gutter ++ "--> line " ++ number ++ ":" ++ toString span.column ++ "\n" ++
    gutter ++ " |\n" ++
    number ++ " | " ++ line ++ "\n" ++
    gutter ++ " | " ++ underlinePadding line span.column ++ carets span.length ++ "\n" ++
    hint

end Lox
