import Lox.Token

/-!
Contract: syntax errors.

A complaint says what the grammar wanted and at which token it was missing; the
end of the source is the place of a complaint without a token. It becomes a
syntax error once the place where the source ends is known.

Owns: causes, wording and places of syntax errors.
-/

namespace Lox

/-- No parameter list and no argument list may be longer. -/
def longestList : Nat := 255

/-- What is wrong with a sequence of tokens. -/
inductive SyntaxError.Cause where
  /-- A symbol is missing at this place of a construct. -/
  | symbol (wanted : Symbol) (place : String)
  /-- An identifier is missing in this role. -/
  | name (role : String)
  /-- The name of a property is missing behind a point. -/
  | property
  /-- An expression is missing. -/
  | expression
  /-- An expression is followed by something else. -/
  | endOfExpression
  /-- The left side of an assignment is neither a variable nor a property. -/
  | assignmentTarget
  /-- A list of such things is longer than `longestList`. -/
  | tooMany (things : String)
  /-- The bound on nested constructs is used up. A bound that exceeds the number
  of tokens is never used up. -/
  | nesting
deriving DecidableEq, Repr

/-- The wording of a syntax error. -/
def SyntaxError.Cause.message : SyntaxError.Cause → String
  | .symbol wanted place => "Expect '" ++ wanted.text ++ "' " ++ place ++ "."
  | .name role => "Expect " ++ role ++ " name."
  | .property => "Expect property name after '.'."
  | .expression => "Expect expression."
  | .endOfExpression => "Expect end of expression."
  | .assignmentTarget => "Invalid assignment target."
  | .tooMany things => "Can't have more than " ++ toString longestList ++ " " ++ things ++ "."
  | .nesting => "Nesting is too deep."

/-- A cause and the token at which it shows, none at the end of the source. -/
structure Complaint where
  cause : SyntaxError.Cause
  token : Option Token

/-- Which piece of the source a static error is about. -/
inductive Place where
  | atLexeme (lexeme : String)
  | atEnd
deriving DecidableEq, Repr

/-- A place as messages show it, with a blank before it. -/
def Place.text : Place → String
  | .atLexeme lexeme => " at '" ++ lexeme ++ "'"
  | .atEnd => " at end"

/-- A syntax error and where it stands. -/
structure SyntaxError where
  cause : SyntaxError.Cause
  span : Span
  place : Place
deriving DecidableEq, Repr

/-- The syntax error of a complaint in a source that ends at this span. -/
def Complaint.toError (finish : Span) (complaint : Complaint) : SyntaxError :=
  match complaint.token with
  | none => ⟨complaint.cause, finish, .atEnd⟩
  | some token => ⟨complaint.cause, token.span, .atLexeme token.lexeme⟩

/-- The wording of a syntax error. -/
def SyntaxError.message (error : SyntaxError) : String := error.cause.message

/-- A static error with its line and place, as one line of text. -/
def staticDisplay (span : Span) (place : Place) (message : String) : String :=
  "[line " ++ toString span.line ++ "] Error" ++ place.text ++ ": " ++ message

/-- The error with its line and place, as one line of text. -/
def SyntaxError.display (error : SyntaxError) : String :=
  staticDisplay error.span error.place error.message

end Lox
