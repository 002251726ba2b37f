import Lox.Number.Layout
import Lox.Syntax

/-!
Contract: the printed form of syntax trees.

Every node becomes a parenthesised list that begins with what the node is and
goes on with its parts, parts being printed trees or bare names. Literals,
variables and `this` are bare. The statements of a program stand on lines of
their own.
-/

namespace Lox

/-- A list of parts in parentheses. -/
def parenthesized (head : String) (parts : List String) : String :=
  "(" ++ head ++ String.join (parts.map (" " ++ ·)) ++ ")"

/-- The printed form of a literal. Strings are shown as they were written. -/
def Literal.printed : Literal → String
  | .nil => "nil"
  | .boolean value => if value then "true" else "false"
  | .number value => Number.Layout.tree.text value
  | .string value => "\"" ++ value ++ "\""

/-- The printed form of a parameter list. -/
def printedParameters (parameters : List Name) : String :=
  "(" ++ String.intercalate " " (parameters.map Name.text) ++ ")"

/-- The head of the printed form of a named function, method or getter. -/
def Declaration.printedHead {Statement : Type} (declaration : Declaration Statement) : String :=
  if declaration.isGetter then "getter " ++ declaration.name.text
  else "fun " ++ declaration.name.text ++ " " ++ printedParameters declaration.parameters

/-- The head of the printed form of a class. -/
def printedClassHead (name : Name) : Option Reference → String
  | none => "class " ++ name.text
  | some superclass => "class " ++ name.text ++ " < " ++ superclass.name.text

mutual

/-- The printed form of an expression. -/
def Expr.printed : Expr → String
  | .literal value _ => value.printed
  | .grouping inner _ => parenthesized "group" [inner.printed]
  | .variable reference => reference.name.text
  | .assign target value _ => parenthesized "=" [target.name.text, value.printed]
  | .unary operator operand _ => parenthesized operator.text [operand.printed]
  | .binary operator left right _ => parenthesized operator.text [left.printed, right.printed]
  | .logical operator left right _ => parenthesized operator.text [left.printed, right.printed]
  | .call callee arguments _ => parenthesized "call" (callee.printed :: printedExprs arguments)
  | .get object name => parenthesized "." [object.printed, name.text]
  | .set object name value _ => parenthesized "set" [object.printed, name.text, value.printed]
  | .this _ _ => "this"
  | .super _ method _ => parenthesized "super" [method.text]
  | .lambda ⟨_, parameters, body, _⟩ =>
      parenthesized "fun" (printedParameters parameters :: printedStmts body)

/-- The printed forms of expressions. -/
def printedExprs : List Expr → List String
  | [] => []
  | expr :: rest => expr.printed :: printedExprs rest

/-- The printed form of an optional expression, if it is there. -/
def printedOptionalExpr : Option Expr → List String
  | none => []
  | some expr => [expr.printed]

/-- The printed form of a statement. -/
def Stmt.printed : Stmt → String
  | .expression value _ => parenthesized ";" [value.printed]
  | .print value _ => parenthesized "print" [value.printed]
  | .var name none _ => parenthesized "var" [name.text]
  | .var name (some initializer) _ =>
      parenthesized "var" [name.text, "=", initializer.printed]
  | .block statements _ => parenthesized "block" (printedStmts statements)
  | .conditional condition thenBranch none _ =>
      parenthesized "if" [condition.printed, thenBranch.printed]
  | .conditional condition thenBranch (some elseBranch) _ =>
      parenthesized "if-else" [condition.printed, thenBranch.printed, elseBranch.printed]
  | .loop condition body increment _ =>
      parenthesized "while" (condition.printed :: body.printed :: printedOptionalExpr increment)
  | .function declaration _ => printedDeclaration declaration
  | .return value _ => parenthesized "return" (printedOptionalExpr value)
  | .class name superclass methods _ =>
      parenthesized (printedClassHead name superclass) (printedDeclarations methods)
  | .break _ => parenthesized "break" []
  | .continue _ => parenthesized "continue" []

/-- The printed forms of statements. -/
def printedStmts : List Stmt → List String
  | [] => []
  | stmt :: rest => stmt.printed :: printedStmts rest

/-- The printed form of a named function, method or getter. -/
def printedDeclaration : FunctionDeclaration → String
  | ⟨name, parameters, body, isGetter⟩ =>
      parenthesized
        (Declaration.printedHead (⟨name, parameters, body, isGetter⟩ : FunctionDeclaration))
        (printedStmts body)

/-- The printed forms of methods. -/
def printedDeclarations : List FunctionDeclaration → List String
  | [] => []
  | declaration :: rest => printedDeclaration declaration :: printedDeclarations rest

end

/-- The printed form of a program, a line for each statement. -/
def Program.printed (program : Program) : String :=
  String.intercalate "\n" (printedStmts program.statements)

end Lox
