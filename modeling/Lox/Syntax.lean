import Lox.Token

/-!
Contract: the syntax trees of the language.

A node keeps what later stages need: names with their places, the place at which
a diagnostic about the node points, and, for each use of a name that a local
scope may bind, the address of the binding. Addresses are absent in a freshly
read tree; a use without one means a global.

There is no tree for the `for` statement: it is read as a block around a `loop`
whose increment also runs after `continue`.

Owns: trees, names, addresses and operators. Does not own: reading, binding,
printing and running of trees.
-/

namespace Lox

/-- An identifier and where it stands. -/
structure Name where
  text : String
  span : Span
deriving DecidableEq, Repr

/-- Where a local variable lives, seen from its use: so many scopes outwards,
and so many declarations into that scope. -/
structure Address where
  depth : Nat
  slot : Nat
deriving DecidableEq, Repr

/-- The use of a variable. -/
structure Reference where
  name : Name
  address : Option Address
deriving DecidableEq, Repr

/-- The value that a literal stands for. -/
inductive Literal where
  | nil
  | boolean (value : Bool)
  | number (value : Float)
  | string (value : String)

/-- Operators with one operand. -/
inductive UnaryOperator where
  | negate | not
deriving DecidableEq, Repr

/-- Operators that evaluate both operands. -/
inductive BinaryOperator where
  | add | subtract | multiply | divide
  | greater | greaterEqual | less | lessEqual
  | equal | notEqual
deriving DecidableEq, Repr

/-- Operators that may leave the right operand alone. -/
inductive LogicalOperator where
  | and | or
deriving DecidableEq, Repr

/-- How an operator is written. -/
def UnaryOperator.text : UnaryOperator → String
  | .negate => "-"
  | .not => "!"

/-- How an operator is written. -/
def BinaryOperator.text : BinaryOperator → String
  | .add => "+"
  | .subtract => "-"
  | .multiply => "*"
  | .divide => "/"
  | .greater => ">"
  | .greaterEqual => ">="
  | .less => "<"
  | .lessEqual => "<="
  | .equal => "=="
  | .notEqual => "!="

/-- How an operator is written. -/
def LogicalOperator.text : LogicalOperator → String
  | .and => "and"
  | .or => "or"

/-- A function, method, getter or anonymous function. The name of an anonymous
function is the word `fun` that begins it; a getter has no parameters. -/
structure Declaration (Statement : Type) where
  name : Name
  parameters : List Name
  body : List Statement
  isGetter : Bool

mutual

/-- Expressions. The span of an operation is that of its operator, the span of
a call that of its closing parenthesis. -/
inductive Expr where
  | literal (value : Literal) (span : Span)
  | grouping (inner : Expr) (span : Span)
  | variable (reference : Reference)
  | assign (target : Reference) (value : Expr) (span : Span)
  | unary (operator : UnaryOperator) (operand : Expr) (span : Span)
  | binary (operator : BinaryOperator) (left right : Expr) (span : Span)
  | logical (operator : LogicalOperator) (left right : Expr) (span : Span)
  | call (callee : Expr) (arguments : List Expr) (span : Span)
  | get (object : Expr) (name : Name)
  | set (object : Expr) (name : Name) (value : Expr) (span : Span)
  | this (address : Option Address) (span : Span)
  | super (address : Option Address) (method : Name) (span : Span)
  | lambda (function : Declaration Stmt)

/-- Statements and declarations. The span of a statement is that of its first
token. -/
inductive Stmt where
  | expression (value : Expr) (span : Span)
  | print (value : Expr) (span : Span)
  | var (name : Name) (initializer : Option Expr) (span : Span)
  | block (statements : List Stmt) (span : Span)
  | conditional (condition : Expr) (thenBranch : Stmt) (elseBranch : Option Stmt) (span : Span)
  | loop (condition : Expr) (body : Stmt) (increment : Option Expr) (span : Span)
  | function (declaration : Declaration Stmt) (span : Span)
  | return (value : Option Expr) (span : Span)
  | class (name : Name) (superclass : Option Reference) (methods : List (Declaration Stmt))
      (span : Span)
  | break (span : Span)
  | continue (span : Span)

end

/-- A function, method, getter or anonymous function. -/
abbrev FunctionDeclaration := Declaration Stmt

/-- A program: its statements in order. -/
structure Program where
  statements : List Stmt

/-- Where a diagnostic about the expression points. -/
def Expr.span : Expr → Span
  | .literal _ span => span
  | .grouping _ span => span
  | .variable reference => reference.name.span
  | .assign _ _ span => span
  | .unary _ _ span => span
  | .binary _ _ _ span => span
  | .logical _ _ _ span => span
  | .call _ _ span => span
  | .get _ name => name.span
  | .set _ _ _ span => span
  | .this _ span => span
  | .super _ _ span => span
  | .lambda function => function.name.span

/-- Where a diagnostic about the statement points. -/
def Stmt.span : Stmt → Span
  | .expression _ span => span
  | .print _ span => span
  | .var _ _ span => span
  | .block _ span => span
  | .conditional _ _ _ span => span
  | .loop _ _ _ span => span
  | .function _ span => span
  | .return _ span => span
  | .class _ _ _ span => span
  | .break span => span
  | .continue span => span

/-- The name of the method that runs when a class makes an instance. -/
def initializerName : String := "init"

/-- Whether a method of this declaration is an initializer. A getter is none,
whatever its name. -/
def Declaration.isInitializer {Statement : Type} (declaration : Declaration Statement) : Bool :=
  declaration.name.text == initializerName && !declaration.isGetter

end Lox
