import Lox.Syntax

/-!
Contract: trees at other places.

Every node of a tree says where in a source it stands. A tree is moved by putting another
place for each of these; nothing else of it changes. A tree that is moved nowhere else is the
tree.

Owns: moved names, trees and lists of trees, and their laws. Does not own: what is done
with a moved tree.
-/

set_option autoImplicit false

namespace Lox

/-- The name at another place. -/
def Name.moved (move : Span → Span) (name : Name) : Name := ⟨name.text, move name.span⟩

/-- The use of a variable at another place. -/
def Reference.moved (move : Span → Span) (reference : Reference) : Reference :=
  ⟨reference.name.moved move, reference.address⟩

mutual

/-- The expression at other places. -/
def Expr.moved (move : Span → Span) : Expr → Expr
  | .literal value span => .literal value (move span)
  | .grouping inner span => .grouping (inner.moved move) (move span)
  | .variable reference => .variable (reference.moved move)
  | .assign target value span => .assign (target.moved move) (value.moved move) (move span)
  | .unary operator operand span => .unary operator (operand.moved move) (move span)
  | .binary operator left right span =>
      .binary operator (left.moved move) (right.moved move) (move span)
  | .logical operator left right span =>
      .logical operator (left.moved move) (right.moved move) (move span)
  | .call callee arguments span =>
      .call (callee.moved move) (movedExprs move arguments) (move span)
  | .get object name => .get (object.moved move) (name.moved move)
  | .set object name value span =>
      .set (object.moved move) (name.moved move) (value.moved move) (move span)
  | .this address span => .this address (move span)
  | .super address method span => .super address (method.moved move) (move span)
  | .lambda function => .lambda (movedFunction move function)

/-- The expressions at other places. -/
def movedExprs (move : Span → Span) : List Expr → List Expr
  | [] => []
  | expr :: rest => expr.moved move :: movedExprs move rest

/-- The expression, if there is one, at other places. -/
def movedOptionalExpr (move : Span → Span) : Option Expr → Option Expr
  | none => none
  | some expr => some (expr.moved move)

/-- The statement at other places. -/
def Stmt.moved (move : Span → Span) : Stmt → Stmt
  | .expression value span => .expression (value.moved move) (move span)
  | .print value span => .print (value.moved move) (move span)
  | .var name initializer span =>
      .var (name.moved move) (movedOptionalExpr move initializer) (move span)
  | .block statements span => .block (movedStmts move statements) (move span)
  | .conditional condition thenBranch elseBranch span =>
      .conditional (condition.moved move) (thenBranch.moved move)
        (movedOptionalStmt move elseBranch) (move span)
  | .loop condition body increment span =>
      .loop (condition.moved move) (body.moved move) (movedOptionalExpr move increment)
        (move span)
  | .function declaration span => .function (movedFunction move declaration) (move span)
  | .return value span => .return (movedOptionalExpr move value) (move span)
  | .class name superclass methods span =>
      .class (name.moved move) (superclass.map (Reference.moved move))
        (movedFunctions move methods) (move span)
  | .break span => .break (move span)
  | .continue span => .continue (move span)

/-- The statement, if there is one, at other places. -/
def movedOptionalStmt (move : Span → Span) : Option Stmt → Option Stmt
  | none => none
  | some stmt => some (stmt.moved move)

/-- The statements at other places. -/
def movedStmts (move : Span → Span) : List Stmt → List Stmt
  | [] => []
  | stmt :: rest => stmt.moved move :: movedStmts move rest

/-- The function at other places. -/
def movedFunction (move : Span → Span) : FunctionDeclaration → FunctionDeclaration
  | ⟨name, parameters, body, isGetter⟩ =>
      ⟨name.moved move, parameters.map (Name.moved move), movedStmts move body, isGetter⟩

/-- The functions at other places. -/
def movedFunctions (move : Span → Span) : List FunctionDeclaration → List FunctionDeclaration
  | [] => []
  | function :: rest => movedFunction move function :: movedFunctions move rest

end

/-- The program at other places. -/
def Program.moved (move : Span → Span) (program : Program) : Program :=
  ⟨movedStmts move program.statements⟩

/-! ## Lists and parts -/

section Parts

variable (move : Span → Span)

theorem movedStmts_eq_map (stmts : List Stmt) : movedStmts move stmts = stmts.map (Stmt.moved move) := by
  induction stmts with
  | nil => rfl
  | cons stmt rest inductionHypothesis => simp [movedStmts, inductionHypothesis]

theorem movedExprs_eq_map (exprs : List Expr) : movedExprs move exprs = exprs.map (Expr.moved move) := by
  induction exprs with
  | nil => rfl
  | cons expr rest inductionHypothesis => simp [movedExprs, inductionHypothesis]

theorem movedFunctions_eq_map (functions : List FunctionDeclaration) :
    movedFunctions move functions = functions.map (movedFunction move) := by
  induction functions with
  | nil => rfl
  | cons function rest inductionHypothesis => simp [movedFunctions, inductionHypothesis]

theorem movedOptionalExpr_eq_map (expr : Option Expr) :
    movedOptionalExpr move expr = expr.map (Expr.moved move) := by
  cases expr <;> rfl

@[simp] theorem Name.moved_text (name : Name) : (name.moved move).text = name.text := rfl

@[simp] theorem Name.moved_span (name : Name) : (name.moved move).span = move name.span := rfl

@[simp] theorem Reference.moved_name (reference : Reference) :
    (reference.moved move).name = reference.name.moved move := rfl

@[simp] theorem Reference.moved_address (reference : Reference) :
    (reference.moved move).address = reference.address := rfl

section Function

variable (function : FunctionDeclaration)

@[simp] theorem movedFunction_name :
    (movedFunction move function).name = function.name.moved move := by
  cases function
  rfl

@[simp] theorem movedFunction_parameters :
    (movedFunction move function).parameters = function.parameters.map (Name.moved move) := by
  cases function
  rfl

@[simp] theorem movedFunction_body :
    (movedFunction move function).body = movedStmts move function.body := by
  cases function
  rfl

@[simp] theorem movedFunction_isGetter :
    (movedFunction move function).isGetter = function.isGetter := by
  cases function
  rfl

@[simp] theorem movedFunction_isInitializer :
    (movedFunction move function).isInitializer = function.isInitializer := by
  simp [Declaration.isInitializer]

end Function

@[simp] theorem Expr.moved_span (expr : Expr) : (expr.moved move).span = move expr.span := by
  cases expr with
  | lambda function => exact congrArg Name.span (movedFunction_name move function)
  | _ => rfl

end Parts

/-! ## Nowhere else -/

@[simp] theorem Name.moved_id (name : Name) : name.moved id = name := rfl

@[simp] theorem Reference.moved_id (reference : Reference) : reference.moved id = reference := rfl

mutual

/-- To move nowhere else changes nothing. -/
theorem Expr.moved_id : (expr : Expr) → expr.moved id = expr
  | .literal _ _ => rfl
  | .grouping inner _ => by simp [Expr.moved, inner.moved_id]
  | .variable _ => rfl
  | .assign _ value _ => by simp [Expr.moved, value.moved_id]
  | .unary _ operand _ => by simp [Expr.moved, operand.moved_id]
  | .binary _ left right _ => by simp [Expr.moved, left.moved_id, right.moved_id]
  | .logical _ left right _ => by simp [Expr.moved, left.moved_id, right.moved_id]
  | .call callee arguments _ => by simp [Expr.moved, callee.moved_id, movedExprs_id arguments]
  | .get object _ => by simp [Expr.moved, object.moved_id]
  | .set object _ value _ => by simp [Expr.moved, object.moved_id, value.moved_id]
  | .this _ _ => rfl
  | .super _ _ _ => rfl
  | .lambda function => by simp [Expr.moved, movedFunction_id function]

theorem movedExprs_id : (exprs : List Expr) → movedExprs id exprs = exprs
  | [] => rfl
  | expr :: rest => by simp [movedExprs, expr.moved_id, movedExprs_id rest]

theorem movedOptionalExpr_id : (expr : Option Expr) → movedOptionalExpr id expr = expr
  | none => rfl
  | some expr => by simp [movedOptionalExpr, expr.moved_id]

/-- To move nowhere else changes nothing. -/
theorem Stmt.moved_id : (stmt : Stmt) → stmt.moved id = stmt
  | .expression value _ => by simp [Stmt.moved, value.moved_id]
  | .print value _ => by simp [Stmt.moved, value.moved_id]
  | .var _ initializer _ => by simp [Stmt.moved, movedOptionalExpr_id initializer]
  | .block statements _ => by simp [Stmt.moved, movedStmts_id statements]
  | .conditional condition thenBranch elseBranch _ => by
      simp [Stmt.moved, condition.moved_id, thenBranch.moved_id, movedOptionalStmt_id elseBranch]
  | .loop condition body increment _ => by
      simp [Stmt.moved, condition.moved_id, body.moved_id, movedOptionalExpr_id increment]
  | .function declaration _ => by simp [Stmt.moved, movedFunction_id declaration]
  | .return value _ => by simp [Stmt.moved, movedOptionalExpr_id value]
  | .class _ superclass methods _ => by
      cases superclass <;> simp [Stmt.moved, movedFunctions_id methods]
  | .break _ => rfl
  | .continue _ => rfl

theorem movedOptionalStmt_id : (stmt : Option Stmt) → movedOptionalStmt id stmt = stmt
  | none => rfl
  | some stmt => by simp [movedOptionalStmt, stmt.moved_id]

theorem movedStmts_id : (stmts : List Stmt) → movedStmts id stmts = stmts
  | [] => rfl
  | stmt :: rest => by simp [movedStmts, stmt.moved_id, movedStmts_id rest]

theorem movedFunction_id : (function : FunctionDeclaration) → movedFunction id function = function
  | ⟨_, parameters, body, _⟩ => by
      have names : parameters.map (Name.moved id) = parameters := List.map_id parameters
      simp [movedFunction, movedStmts_id body, names]

theorem movedFunctions_id : (functions : List FunctionDeclaration) →
    movedFunctions id functions = functions
  | [] => rfl
  | function :: rest => by
      simp [movedFunctions, movedFunction_id function, movedFunctions_id rest]

end

theorem Program.moved_id (program : Program) : program.moved id = program := by
  simp [Program.moved, movedStmts_id]

end Lox
