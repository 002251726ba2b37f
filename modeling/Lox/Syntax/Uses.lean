import Lox.Syntax

/-!
Contract: the uses in a tree that a local scope may bind.

The uses are variables, assignment targets, superclasses, `this` and `super`.
They are numbered from zero in the order in which an outline lists them, and a
pass over the tree may give each of them another address. Nothing else of the
tree changes.

Owns: the numbering and the pass. Does not own: which addresses are right.
-/

namespace Lox

/-- What a pass does with the address of the use of this number. -/
abbrev Readdressing := Nat → Option Address → Option Address

/-- The new address of the next use. -/
def nextAddress (change : Readdressing) (address : Option Address) :
    StateM Nat (Option Address) := do
  let number ← get
  set (number + 1)
  return change number address

/-- Readdresses the use of a variable. -/
def Reference.readdress (change : Readdressing) (reference : Reference) :
    StateM Nat Reference := do
  return { reference with address := ← nextAddress change reference.address }

/-- Readdresses an optional superclass. -/
def readdressSuperclass (change : Readdressing) :
    Option Reference → StateM Nat (Option Reference)
  | none => return none
  | some superclass => return some (← superclass.readdress change)

mutual

/-- Readdresses the uses in an expression. -/
def Expr.readdress (change : Readdressing) : Expr → StateM Nat Expr
  | .literal value span => return .literal value span
  | .grouping inner span => return .grouping (← inner.readdress change) span
  | .variable reference => return .variable (← reference.readdress change)
  | .assign target value span => do
      let target ← target.readdress change
      return .assign target (← value.readdress change) span
  | .unary operator operand span => return .unary operator (← operand.readdress change) span
  | .binary operator left right span => do
      let left ← left.readdress change
      return .binary operator left (← right.readdress change) span
  | .logical operator left right span => do
      let left ← left.readdress change
      return .logical operator left (← right.readdress change) span
  | .call callee arguments span => do
      let callee ← callee.readdress change
      return .call callee (← readdressExprs change arguments) span
  | .get object name => return .get (← object.readdress change) name
  | .set object name value span => do
      let object ← object.readdress change
      return .set object name (← value.readdress change) span
  | .this address span => return .this (← nextAddress change address) span
  | .super address method span => return .super (← nextAddress change address) method span
  | .lambda function => return .lambda (← readdressDeclaration change function)

/-- Readdresses the uses in expressions, in order. -/
def readdressExprs (change : Readdressing) : List Expr → StateM Nat (List Expr)
  | [] => return []
  | expr :: rest => do
      let expr ← expr.readdress change
      return expr :: (← readdressExprs change rest)

/-- Readdresses the uses in an optional expression. -/
def readdressOptionalExpr (change : Readdressing) : Option Expr → StateM Nat (Option Expr)
  | none => return none
  | some expr => return some (← expr.readdress change)

/-- Readdresses the uses in a statement. -/
def Stmt.readdress (change : Readdressing) : Stmt → StateM Nat Stmt
  | .expression value span => return .expression (← value.readdress change) span
  | .print value span => return .print (← value.readdress change) span
  | .var name initializer span =>
      return .var name (← readdressOptionalExpr change initializer) span
  | .block statements span => return .block (← readdressStmts change statements) span
  | .conditional condition thenBranch elseBranch span => do
      let condition ← condition.readdress change
      let thenBranch ← thenBranch.readdress change
      return .conditional condition thenBranch (← readdressOptionalStmt change elseBranch) span
  | .loop condition body increment span => do
      let condition ← condition.readdress change
      let body ← body.readdress change
      return .loop condition body (← readdressOptionalExpr change increment) span
  | .function declaration span =>
      return .function (← readdressDeclaration change declaration) span
  | .return value span => return .return (← readdressOptionalExpr change value) span
  | .class name superclass methods span => do
      let superclass ← readdressSuperclass change superclass
      return .class name superclass (← readdressDeclarations change methods) span
  | .break span => return .break span
  | .continue span => return .continue span

/-- Readdresses the uses in an optional statement. -/
def readdressOptionalStmt (change : Readdressing) : Option Stmt → StateM Nat (Option Stmt)
  | none => return none
  | some stmt => return some (← stmt.readdress change)

/-- Readdresses the uses in statements, in order. -/
def readdressStmts (change : Readdressing) : List Stmt → StateM Nat (List Stmt)
  | [] => return []
  | stmt :: rest => do
      let stmt ← stmt.readdress change
      return stmt :: (← readdressStmts change rest)

/-- Readdresses the uses in a function, method or getter. -/
def readdressDeclaration (change : Readdressing) :
    FunctionDeclaration → StateM Nat FunctionDeclaration
  | ⟨name, parameters, body, isGetter⟩ =>
      return ⟨name, parameters, ← readdressStmts change body, isGetter⟩

/-- Readdresses the uses in methods, in order. -/
def readdressDeclarations (change : Readdressing) :
    List FunctionDeclaration → StateM Nat (List FunctionDeclaration)
  | [] => return []
  | declaration :: rest => do
      let declaration ← readdressDeclaration change declaration
      return declaration :: (← readdressDeclarations change rest)

end

/-- Readdresses the uses in a program. -/
def Program.readdress (change : Readdressing) (program : Program) : Program :=
  ⟨((readdressStmts change program.statements).run 0).1⟩

/-- Gives the use of this number another address. -/
def Program.setAddress (number : Nat) (address : Option Address) (program : Program) : Program :=
  program.readdress fun found old => if found = number then address else old

end Lox
