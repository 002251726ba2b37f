import Lox.Proofs.Binding.Bound
import Lox.Proofs.Binding.Regions

/-!
Contract: the addresses that a tree gets, as a function of the tree.

In a context that lists the different names of each scope around it, a use gets the
address of its name, and keeps the address that it has if no scope around it declares the
name. Globals, functions and loops play no part, and there are no errors.

Main statement: `Program.addressed_addressed`, a tree with its addresses keeps them.

Owns: trees with their addresses. Does not own: that the pass over names finds them.
-/

set_option autoImplicit false

namespace Lox

namespace Binding

/-- A declaration in the innermost scope. A name that is declared again stays where it is. -/
def Context.add (context : Context) (name : String) : Context :=
  match context with
  | [] => []
  | names :: outer => (if name ∈ names then names else names ++ [name]) :: outer

/-- Declarations in the innermost scope. -/
def Context.addAll (context : Context) (names : List String) : Context :=
  names.foldl Context.add context

end Binding

open Binding

/-! ## Trees -/

/-- The address of a name, or else the old one. -/
def addressOr (context : Context) (name : String) (old : Option Address) : Option Address :=
  (addressIn name context).or old

/-- The use of a variable with its address. -/
def Reference.addressed (context : Context) (reference : Reference) : Reference :=
  { reference with address := addressOr context reference.name.text reference.address }

mutual

/-- The expression with its addresses, in a class or not. -/
def Expr.addressed (context : Context) (inClass : Bool) : Expr → Expr
  | .literal value span => .literal value span
  | .grouping inner span => .grouping (inner.addressed context inClass) span
  | .variable reference => .variable (reference.addressed context)
  | .assign target value span =>
      .assign (target.addressed context) (value.addressed context inClass) span
  | .unary operator operand span => .unary operator (operand.addressed context inClass) span
  | .binary operator left right span =>
      .binary operator (left.addressed context inClass) (right.addressed context inClass) span
  | .logical operator left right span =>
      .logical operator (left.addressed context inClass) (right.addressed context inClass) span
  | .call callee arguments span =>
      .call (callee.addressed context inClass) (addressedExprs context inClass arguments) span
  | .get object name => .get (object.addressed context inClass) name
  | .set object name value span =>
      .set (object.addressed context inClass) name (value.addressed context inClass) span
  | .this address span =>
      .this (if inClass then addressOr context "this" address else address) span
  | .super address method span => .super (addressOr context "super" address) method span
  | .lambda function => .lambda (addressedFunction context inClass function)

/-- The expressions with their addresses. -/
def addressedExprs (context : Context) (inClass : Bool) : List Expr → List Expr
  | [] => []
  | expr :: rest => expr.addressed context inClass :: addressedExprs context inClass rest

/-- The expression, if there is one, with its addresses. -/
def addressedOptionalExpr (context : Context) (inClass : Bool) : Option Expr → Option Expr
  | none => none
  | some expr => some (expr.addressed context inClass)

/-- The statement with its addresses. -/
def Stmt.addressed (context : Context) (inClass : Bool) : Stmt → Stmt
  | .expression value span => .expression (value.addressed context inClass) span
  | .print value span => .print (value.addressed context inClass) span
  | .var name initializer span =>
      .var name (addressedOptionalExpr (context.add name.text) inClass initializer) span
  | .block statements span => .block (addressedStmts ([] :: context) inClass statements) span
  | .conditional condition thenBranch elseBranch span =>
      .conditional (condition.addressed context inClass) (thenBranch.addressed context inClass)
        (addressedOptionalStmt (context.addAll thenBranch.declares) inClass elseBranch) span
  | .loop condition body increment span =>
      .loop (condition.addressed context inClass) (body.addressed context inClass)
        (addressedOptionalExpr (context.addAll body.declares) inClass increment) span
  | .function declaration span =>
      .function (addressedFunction (context.add declaration.name.text) inClass declaration) span
  | .return value span => .return (addressedOptionalExpr context inClass value) span
  | .class name superclass methods span =>
      .class name (superclass.map (Reference.addressed (context.add name.text)))
        (addressedFunctions (methodContext (context.add name.text) superclass) methods) span
  | .break span => .break span
  | .continue span => .continue span

/-- The statement, if there is one, with its addresses. -/
def addressedOptionalStmt (context : Context) (inClass : Bool) : Option Stmt → Option Stmt
  | none => none
  | some stmt => some (stmt.addressed context inClass)

/-- The statements with their addresses, each behind those before it. -/
def addressedStmts (context : Context) (inClass : Bool) : List Stmt → List Stmt
  | [] => []
  | stmt :: rest =>
      stmt.addressed context inClass ::
        addressedStmts (context.addAll stmt.declares) inClass rest

/-- The function with its addresses. -/
def addressedFunction (context : Context) (inClass : Bool) :
    FunctionDeclaration → FunctionDeclaration
  | ⟨name, parameters, body, isGetter⟩ =>
      ⟨name, parameters,
        addressedStmts (Context.addAll ([] :: context) (parameters.map Name.text)) inClass body,
        isGetter⟩

/-- The methods of a class with their addresses. -/
def addressedFunctions (context : Context) : List FunctionDeclaration → List FunctionDeclaration
  | [] => []
  | method :: rest => addressedFunction context true method :: addressedFunctions context rest

end

/-- The program with its addresses. -/
def Program.addressed (program : Program) : Program :=
  ⟨addressedStmts [] false program.statements⟩

/-! ## What addresses leave alone -/

@[simp] theorem addressedFunction_name (context : Context) (inClass : Bool)
    (function : FunctionDeclaration) :
    (addressedFunction context inClass function).name = function.name := by
  cases function
  simp only [addressedFunction]

@[simp] theorem addressedFunction_isInitializer (context : Context) (inClass : Bool)
    (function : FunctionDeclaration) :
    (addressedFunction context inClass function).isInitializer = function.isInitializer := by
  cases function
  simp only [addressedFunction, Declaration.isInitializer]

@[simp] theorem methodContext_map (context : Context) (superclass : Option Reference)
    (change : Reference → Reference) :
    methodContext context (superclass.map change) = methodContext context superclass := by
  simp only [methodContext, Option.isSome_map]

mutual

@[simp] theorem Stmt.declares_addressed (context : Context) (inClass : Bool) : (stmt : Stmt) →
    (stmt.addressed context inClass).declares = stmt.declares
  | .expression _ _ => by simp only [Stmt.addressed, Stmt.declares]
  | .print _ _ => by simp only [Stmt.addressed, Stmt.declares]
  | .var _ _ _ => by simp only [Stmt.addressed, Stmt.declares]
  | .block _ _ => by simp only [Stmt.addressed, Stmt.declares]
  | .conditional _ thenBranch elseBranch _ => by
      simp only [Stmt.addressed, Stmt.declares, Stmt.declares_addressed context inClass thenBranch,
        declaresOfOptionalStmt_addressed _ inClass elseBranch]
  | .loop _ body _ _ => by
      simp only [Stmt.addressed, Stmt.declares, Stmt.declares_addressed context inClass body]
  | .function _ _ => by simp only [Stmt.addressed, Stmt.declares, addressedFunction_name]
  | .return _ _ => by simp only [Stmt.addressed, Stmt.declares]
  | .class _ _ _ _ => by simp only [Stmt.addressed, Stmt.declares]
  | .break _ => by simp only [Stmt.addressed, Stmt.declares]
  | .continue _ => by simp only [Stmt.addressed, Stmt.declares]

@[simp] theorem declaresOfOptionalStmt_addressed (context : Context) (inClass : Bool) :
    (stmt : Option Stmt) →
    declaresOfOptionalStmt (addressedOptionalStmt context inClass stmt) =
      declaresOfOptionalStmt stmt
  | none => rfl
  | some stmt => Stmt.declares_addressed context inClass stmt

end

/-! ## Addresses that are there already -/

/-- An address that was found is found again. -/
theorem addressOr_addressOr (context : Context) (name : String) (old : Option Address) :
    addressOr context name (addressOr context name old) = addressOr context name old := by
  simp only [addressOr, ← Option.or_assoc, Option.or_self]

theorem Reference.addressed_addressed (context : Context) (reference : Reference) :
    (reference.addressed context).addressed context = reference.addressed context := by
  simp only [Reference.addressed, addressOr_addressOr]

theorem map_addressed_addressed (context : Context) (superclass : Option Reference) :
    (superclass.map (Reference.addressed context)).map (Reference.addressed context) =
      superclass.map (Reference.addressed context) := by
  cases superclass with
  | none => rfl
  | some reference => exact congrArg some (reference.addressed_addressed context)

mutual

theorem Expr.addressed_addressed (context : Context) (inClass : Bool) : (expr : Expr) →
    (expr.addressed context inClass).addressed context inClass = expr.addressed context inClass
  | .literal _ _ => by simp only [Expr.addressed]
  | .grouping inner _ => by simp only [Expr.addressed, inner.addressed_addressed]
  | .variable reference => by simp only [Expr.addressed, reference.addressed_addressed]
  | .assign target value _ => by
      simp only [Expr.addressed, target.addressed_addressed, value.addressed_addressed]
  | .unary _ operand _ => by simp only [Expr.addressed, operand.addressed_addressed]
  | .binary _ left right _ => by
      simp only [Expr.addressed, left.addressed_addressed, right.addressed_addressed]
  | .logical _ left right _ => by
      simp only [Expr.addressed, left.addressed_addressed, right.addressed_addressed]
  | .call callee arguments _ => by
      simp only [Expr.addressed, callee.addressed_addressed,
        addressedExprs_addressedExprs context inClass arguments]
  | .get object _ => by simp only [Expr.addressed, object.addressed_addressed]
  | .set object _ value _ => by
      simp only [Expr.addressed, object.addressed_addressed, value.addressed_addressed]
  | .this _ _ => by
      cases inClass <;> simp [Expr.addressed, addressOr_addressOr]
  | .super _ _ _ => by simp only [Expr.addressed, addressOr_addressOr]
  | .lambda function => by
      simp only [Expr.addressed, addressedFunction_addressedFunction context inClass function]

theorem addressedExprs_addressedExprs (context : Context) (inClass : Bool) :
    (exprs : List Expr) →
    addressedExprs context inClass (addressedExprs context inClass exprs) =
      addressedExprs context inClass exprs
  | [] => rfl
  | expr :: rest => by
      simp only [addressedExprs, expr.addressed_addressed,
        addressedExprs_addressedExprs context inClass rest]

theorem addressedOptionalExpr_addressedOptionalExpr (context : Context) (inClass : Bool) :
    (expr : Option Expr) →
    addressedOptionalExpr context inClass (addressedOptionalExpr context inClass expr) =
      addressedOptionalExpr context inClass expr
  | none => rfl
  | some expr => by simp only [addressedOptionalExpr, expr.addressed_addressed]

theorem Stmt.addressed_addressed (context : Context) (inClass : Bool) : (stmt : Stmt) →
    (stmt.addressed context inClass).addressed context inClass = stmt.addressed context inClass
  | .expression value _ => by simp only [Stmt.addressed, value.addressed_addressed]
  | .print value _ => by simp only [Stmt.addressed, value.addressed_addressed]
  | .var _ initializer _ => by
      simp only [Stmt.addressed,
        addressedOptionalExpr_addressedOptionalExpr _ inClass initializer]
  | .block statements _ => by
      simp only [Stmt.addressed, addressedStmts_addressedStmts _ inClass statements]
  | .conditional condition thenBranch elseBranch _ => by
      simp only [Stmt.addressed, condition.addressed_addressed, thenBranch.addressed_addressed,
        thenBranch.declares_addressed,
        addressedOptionalStmt_addressedOptionalStmt _ inClass elseBranch]
  | .loop condition body increment _ => by
      simp only [Stmt.addressed, condition.addressed_addressed, body.addressed_addressed,
        body.declares_addressed, addressedOptionalExpr_addressedOptionalExpr _ inClass increment]
  | .function declaration _ => by
      simp only [Stmt.addressed, addressedFunction_name,
        addressedFunction_addressedFunction _ inClass declaration]
  | .return value _ => by
      simp only [Stmt.addressed, addressedOptionalExpr_addressedOptionalExpr _ inClass value]
  | .class _ superclass methods _ => by
      simp only [Stmt.addressed, map_addressed_addressed, methodContext_map,
        addressedFunctions_addressedFunctions _ methods]
  | .break _ => by simp only [Stmt.addressed]
  | .continue _ => by simp only [Stmt.addressed]

theorem addressedOptionalStmt_addressedOptionalStmt (context : Context) (inClass : Bool) :
    (stmt : Option Stmt) →
    addressedOptionalStmt context inClass (addressedOptionalStmt context inClass stmt) =
      addressedOptionalStmt context inClass stmt
  | none => rfl
  | some stmt => by simp only [addressedOptionalStmt, stmt.addressed_addressed]

theorem addressedStmts_addressedStmts (context : Context) (inClass : Bool) :
    (stmts : List Stmt) →
    addressedStmts context inClass (addressedStmts context inClass stmts) =
      addressedStmts context inClass stmts
  | [] => rfl
  | stmt :: rest => by
      simp only [addressedStmts, stmt.addressed_addressed, stmt.declares_addressed,
        addressedStmts_addressedStmts _ inClass rest]

theorem addressedFunction_addressedFunction (context : Context) (inClass : Bool) :
    (function : FunctionDeclaration) →
    addressedFunction context inClass (addressedFunction context inClass function) =
      addressedFunction context inClass function
  | ⟨_, _, body, _⟩ => by
      simp only [addressedFunction, addressedStmts_addressedStmts _ inClass body]

theorem addressedFunctions_addressedFunctions (context : Context) :
    (functions : List FunctionDeclaration) →
    addressedFunctions context (addressedFunctions context functions) =
      addressedFunctions context functions
  | [] => rfl
  | function :: rest => by
      simp only [addressedFunctions, addressedFunction_addressedFunction context true function,
        addressedFunctions_addressedFunctions context rest]

end

/-- A program with its addresses keeps them. -/
theorem Program.addressed_addressed (program : Program) :
    program.addressed.addressed = program.addressed :=
  congrArg Program.mk (addressedStmts_addressedStmts [] false program.statements)

end Lox
