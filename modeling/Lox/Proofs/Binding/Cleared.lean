import Lox.Proofs.Binding.Unbound
import Lox.Proofs.Binding.Yields

/-!
Contract: trees without addresses.

To clear a tree is to take away the addresses of its uses. The pass over names adds addresses and
changes nothing else: cleared again, what it makes of a tree as it was read is that tree.

Main statement: `cleared_resolve`.

Owns: cleared trees. Does not own: what the addresses are.
-/

set_option autoImplicit false

namespace Lox

/-- The use of a variable without address. -/
def Reference.cleared (reference : Reference) : Reference := ⟨reference.name, none⟩

mutual

/-- The expression without addresses. -/
def Expr.cleared : Expr → Expr
  | .literal value span => .literal value span
  | .grouping inner span => .grouping inner.cleared span
  | .variable reference => .variable reference.cleared
  | .assign target value span => .assign target.cleared value.cleared span
  | .unary operator operand span => .unary operator operand.cleared span
  | .binary operator left right span => .binary operator left.cleared right.cleared span
  | .logical operator left right span => .logical operator left.cleared right.cleared span
  | .call callee arguments span => .call callee.cleared (clearedExprs arguments) span
  | .get object name => .get object.cleared name
  | .set object name value span => .set object.cleared name value.cleared span
  | .this _ span => .this none span
  | .super _ method span => .super none method span
  | .lambda function => .lambda (clearedFunction function)

/-- The expressions without addresses. -/
def clearedExprs : List Expr → List Expr
  | [] => []
  | expr :: rest => expr.cleared :: clearedExprs rest

/-- The expression, if there is one, without addresses. -/
def clearedOptionalExpr : Option Expr → Option Expr
  | none => none
  | some expr => some expr.cleared

/-- The statement without addresses. -/
def Stmt.cleared : Stmt → Stmt
  | .expression value span => .expression value.cleared span
  | .print value span => .print value.cleared span
  | .var name initializer span => .var name (clearedOptionalExpr initializer) span
  | .block statements span => .block (clearedStmts statements) span
  | .conditional condition thenBranch elseBranch span =>
      .conditional condition.cleared thenBranch.cleared (clearedOptionalStmt elseBranch) span
  | .loop condition body increment span =>
      .loop condition.cleared body.cleared (clearedOptionalExpr increment) span
  | .function declaration span => .function (clearedFunction declaration) span
  | .return value span => .return (clearedOptionalExpr value) span
  | .class name superclass methods span =>
      .class name (superclass.map Reference.cleared) (clearedFunctions methods) span
  | .break span => .break span
  | .continue span => .continue span

/-- The statement, if there is one, without addresses. -/
def clearedOptionalStmt : Option Stmt → Option Stmt
  | none => none
  | some stmt => some stmt.cleared

/-- The statements without addresses. -/
def clearedStmts : List Stmt → List Stmt
  | [] => []
  | stmt :: rest => stmt.cleared :: clearedStmts rest

/-- The function without addresses. -/
def clearedFunction : FunctionDeclaration → FunctionDeclaration
  | ⟨name, parameters, body, isGetter⟩ => ⟨name, parameters, clearedStmts body, isGetter⟩

/-- The functions without addresses. -/
def clearedFunctions : List FunctionDeclaration → List FunctionDeclaration
  | [] => []
  | function :: rest => clearedFunction function :: clearedFunctions rest

end

/-- The program without addresses. -/
def Program.cleared (program : Program) : Program := ⟨clearedStmts program.statements⟩

namespace Binding

theorem declared?_cleared (stmt : Stmt) : stmt.cleared.declared? = stmt.declared? := by
  cases stmt with
  | function declaration _ =>
      cases declaration
      rfl
  | _ => rfl

theorem Reference.cleared_of_unbound {reference : Reference} (unbound : reference.Unbound)
    (address : Option Address) : Reference.cleared ⟨reference.name, address⟩ = reference :=
  congrArg (Reference.mk reference.name) unbound.1.symm

theorem cleared_readVariable {reference found : Reference} {before after : Resolver}
    (yields : Yields (readVariable reference) before found after) (unbound : reference.Unbound) :
    found.cleared = reference := by
  simp only [readVariable, yields_bind, yields_pure] at yields
  obtain ⟨_, _, _, _, _, _, address, _, _, rfl, _⟩ := yields
  exact Reference.cleared_of_unbound unbound address

theorem cleared_readSuperclass {name : Name} {superclass found : Option Reference}
    {before after : Resolver} (yields : Yields (readSuperclass name superclass) before found after)
    (unbound : ∀ reference ∈ superclass, reference.Unbound) :
    found.map Reference.cleared = superclass := by
  rcases readSuperclass_spec yields with
    ⟨rfl, rfl, _⟩ | ⟨reference, bound, _, _, rfl, rfl, reads, _⟩
  · rfl
  · exact congrArg some (cleared_readVariable reads (unbound reference rfl))

mutual

/-- Binding adds addresses, and no more. -/
theorem cleared_resolve : (expr : Expr) → ∀ ⦃before after : Resolver⦄ ⦃found : Expr⦄,
    Yields expr.resolve before found after → expr.Unbound → found.cleared = expr
  | .literal _ _ => by
      intro before after found yields _
      obtain ⟨rfl, _⟩ := yields_pure.mp yields
      rfl
  | .grouping inner span => by
      intro before after found yields unbound
      simp only [Expr.resolve, yields_bind, yields_pure] at yields
      obtain ⟨_, _, yieldsInner, rfl, _⟩ := yields
      exact congrArg (Expr.grouping · span) (cleared_resolve inner yieldsInner unbound)
  | .variable reference => by
      intro before after found yields unbound
      simp only [Expr.resolve, yields_bind, yields_pure] at yields
      obtain ⟨_, _, reads, rfl, _⟩ := yields
      exact congrArg Expr.variable (cleared_readVariable reads unbound)
  | .assign target value span => by
      intro before after found yields unbound
      simp only [Expr.resolve, yields_bind, yields_pure] at yields
      obtain ⟨_, _, yieldsValue, address, _, _, rfl, _⟩ := yields
      simp only [Expr.cleared, cleared_resolve value yieldsValue unbound.2,
        Reference.cleared_of_unbound unbound.1]
  | .unary operator operand span => by
      intro before after found yields unbound
      simp only [Expr.resolve, yields_bind, yields_pure] at yields
      obtain ⟨_, _, yieldsOperand, rfl, _⟩ := yields
      exact congrArg (Expr.unary operator · span) (cleared_resolve operand yieldsOperand unbound)
  | .binary _ left right _ => by
      intro before after found yields unbound
      simp only [Expr.resolve, yields_bind, yields_pure] at yields
      obtain ⟨_, _, yieldsLeft, _, _, yieldsRight, rfl, _⟩ := yields
      simp only [Expr.cleared, cleared_resolve left yieldsLeft unbound.1,
        cleared_resolve right yieldsRight unbound.2]
  | .logical _ left right _ => by
      intro before after found yields unbound
      simp only [Expr.resolve, yields_bind, yields_pure] at yields
      obtain ⟨_, _, yieldsLeft, _, _, yieldsRight, rfl, _⟩ := yields
      simp only [Expr.cleared, cleared_resolve left yieldsLeft unbound.1,
        cleared_resolve right yieldsRight unbound.2]
  | .call callee arguments _ => by
      intro before after found yields unbound
      simp only [Expr.resolve, yields_bind, yields_pure] at yields
      obtain ⟨_, _, yieldsCallee, _, _, yieldsArguments, rfl, _⟩ := yields
      simp only [Expr.cleared, cleared_resolve callee yieldsCallee unbound.1,
        cleared_resolveExprs arguments yieldsArguments unbound.2]
  | .get object name => by
      intro before after found yields unbound
      simp only [Expr.resolve, yields_bind, yields_pure] at yields
      obtain ⟨_, _, yieldsObject, rfl, _⟩ := yields
      exact congrArg (Expr.get · name) (cleared_resolve object yieldsObject unbound)
  | .set object _ value _ => by
      intro before after found yields unbound
      simp only [Expr.resolve, yields_bind, yields_pure] at yields
      obtain ⟨_, _, yieldsValue, _, _, yieldsObject, rfl, _⟩ := yields
      simp only [Expr.cleared, cleared_resolve object yieldsObject unbound.1,
        cleared_resolve value yieldsValue unbound.2]
  | .this address span => by
      intro before after found yields unbound
      simp only [Expr.resolve, yields_bind, yields_pure] at yields
      obtain ⟨_, _, _, rfl, _⟩ := yields
      exact congrArg (Expr.this · span) (Eq.symm unbound)
  | .super address method span => by
      intro before after found yields unbound
      simp only [Expr.resolve, yields_bind, yields_pure] at yields
      obtain ⟨_, _, _, rfl, _⟩ := yields
      exact congrArg (Expr.super · method span) (Eq.symm unbound)
  | .lambda function => by
      intro before after found yields unbound
      simp only [Expr.resolve, yields_bind, yields_pure] at yields
      obtain ⟨_, _, yieldsFunction, rfl, _⟩ := yields
      exact congrArg Expr.lambda (cleared_resolveFunction _ function yieldsFunction unbound)

theorem cleared_resolveExprs : (exprs : List Expr) →
    ∀ ⦃before after : Resolver⦄ ⦃found : List Expr⦄,
    Yields (resolveExprs exprs) before found after → unboundExprs exprs →
    clearedExprs found = exprs
  | [] => by
      intro before after found yields _
      obtain ⟨rfl, _⟩ := yields_pure.mp yields
      rfl
  | expr :: rest => by
      intro before after found yields unbound
      simp only [resolveExprs, yields_bind, yields_pure] at yields
      obtain ⟨_, _, yieldsFirst, _, _, yieldsRest, rfl, _⟩ := yields
      simp only [clearedExprs, cleared_resolve expr yieldsFirst unbound.1,
        cleared_resolveExprs rest yieldsRest unbound.2]

theorem cleared_resolveOptionalExpr : (expr : Option Expr) →
    ∀ ⦃before after : Resolver⦄ ⦃found : Option Expr⦄,
    Yields (resolveOptionalExpr expr) before found after → unboundOptionalExpr expr →
    clearedOptionalExpr found = expr
  | none => by
      intro before after found yields _
      obtain ⟨rfl, _⟩ := yields_pure.mp yields
      rfl
  | some expr => by
      intro before after found yields unbound
      simp only [resolveOptionalExpr, yields_bind, yields_pure] at yields
      obtain ⟨_, _, yieldsExpr, rfl, _⟩ := yields
      exact congrArg some (cleared_resolve expr yieldsExpr unbound)

/-- Binding adds addresses, and no more. -/
theorem clearedStmt_resolve : (stmt : Stmt) → ∀ ⦃before after : Resolver⦄ ⦃found : Stmt⦄,
    Yields stmt.resolve before found after → stmt.Unbound → found.cleared = stmt
  | .expression value span => by
      intro before after found yields unbound
      simp only [Stmt.resolve, yields_bind, yields_pure] at yields
      obtain ⟨_, _, yieldsValue, rfl, _⟩ := yields
      exact congrArg (Stmt.expression · span) (cleared_resolve value yieldsValue unbound)
  | .print value span => by
      intro before after found yields unbound
      simp only [Stmt.resolve, yields_bind, yields_pure] at yields
      obtain ⟨_, _, yieldsValue, rfl, _⟩ := yields
      exact congrArg (Stmt.print · span) (cleared_resolve value yieldsValue unbound)
  | .var name initializer span => by
      intro before after found yields unbound
      simp only [Stmt.resolve, yields_bind, yields_pure] at yields
      obtain ⟨_, _, _, _, _, yieldsInitializer, _, _, _, rfl, _⟩ := yields
      exact congrArg (Stmt.var name · span)
        (cleared_resolveOptionalExpr initializer yieldsInitializer unbound.2)
  | .block statements span => by
      intro before after found yields unbound
      simp only [Stmt.resolve, yields_bind, yields_pure] at yields
      obtain ⟨_, _, _, _, _, yieldsBody, _, _, _, rfl, _⟩ := yields
      exact congrArg (Stmt.block · span) (cleared_resolveStmts statements yieldsBody unbound)
  | .conditional condition thenBranch elseBranch _ => by
      intro before after found yields unbound
      simp only [Stmt.resolve, yields_bind, yields_pure] at yields
      obtain ⟨_, _, yieldsCondition, _, _, yieldsThen, _, _, yieldsElse, rfl, _⟩ := yields
      obtain ⟨unboundCondition, ⟨unboundThen, _⟩, unboundElse⟩ := unbound
      simp only [Stmt.cleared, cleared_resolve condition yieldsCondition unboundCondition,
        clearedStmt_resolve thenBranch yieldsThen unboundThen,
        cleared_resolveOptionalStmt elseBranch yieldsElse unboundElse]
  | .loop condition body increment _ => by
      intro before after found yields unbound
      simp only [Stmt.resolve, yields_bind, yields_pure] at yields
      obtain ⟨_, _, yieldsCondition, _, _, _, _, _, yieldsBody, _, _, _, _, _, yieldsIncrement,
        rfl, _⟩ := yields
      obtain ⟨unboundCondition, ⟨unboundBody, _⟩, unboundIncrement⟩ := unbound
      simp only [Stmt.cleared, cleared_resolve condition yieldsCondition unboundCondition,
        clearedStmt_resolve body yieldsBody unboundBody,
        cleared_resolveOptionalExpr increment yieldsIncrement unboundIncrement]
  | .function declaration span => by
      intro before after found yields unbound
      simp only [Stmt.resolve, yields_bind, yields_pure] at yields
      obtain ⟨_, _, _, _, _, _, _, _, yieldsFunction, rfl, _⟩ := yields
      exact congrArg (Stmt.function · span)
        (cleared_resolveFunction _ declaration yieldsFunction unbound.2)
  | .return value span => by
      intro before after found yields unbound
      simp only [Stmt.resolve, yields_bind, yields_pure] at yields
      obtain ⟨_, _, _, _, _, yieldsValue, rfl, _⟩ := yields
      exact congrArg (Stmt.return · span) (cleared_resolveOptionalExpr value yieldsValue unbound)
  | .class _ superclass methods _ => by
      intro before after found yields unbound
      obtain ⟨_, _, rfl, ⟨_, _, _, _, inherits, binds, _⟩⟩ := yields_class yields
      simp only [Stmt.cleared, cleared_readSuperclass inherits unbound.2.1,
        cleared_resolveMethods methods binds unbound.2.2]
  | .break span => by
      intro before after found yields _
      simp only [Stmt.resolve, yields_bind, yields_pure] at yields
      obtain ⟨_, _, _, rfl, _⟩ := yields
      rfl
  | .continue span => by
      intro before after found yields _
      simp only [Stmt.resolve, yields_bind, yields_pure] at yields
      obtain ⟨_, _, _, rfl, _⟩ := yields
      rfl

theorem cleared_resolveOptionalStmt : (stmt : Option Stmt) →
    ∀ ⦃before after : Resolver⦄ ⦃found : Option Stmt⦄,
    Yields (resolveOptionalStmt stmt) before found after → unboundBranch stmt →
    clearedOptionalStmt found = stmt
  | none => by
      intro before after found yields _
      obtain ⟨rfl, _⟩ := yields_pure.mp yields
      rfl
  | some stmt => by
      intro before after found yields unbound
      simp only [resolveOptionalStmt, yields_bind, yields_pure] at yields
      obtain ⟨_, _, yieldsStmt, rfl, _⟩ := yields
      exact congrArg some (clearedStmt_resolve stmt yieldsStmt unbound.1)

theorem cleared_resolveStmts : (stmts : List Stmt) →
    ∀ ⦃before after : Resolver⦄ ⦃found : List Stmt⦄,
    Yields (resolveStmts stmts) before found after → unboundStmts stmts →
    clearedStmts found = stmts
  | [] => by
      intro before after found yields _
      obtain ⟨rfl, _⟩ := yields_pure.mp yields
      rfl
  | stmt :: rest => by
      intro before after found yields unbound
      simp only [resolveStmts, yields_bind, yields_pure] at yields
      obtain ⟨_, _, yieldsFirst, _, _, yieldsRest, rfl, _⟩ := yields
      simp only [clearedStmts, clearedStmt_resolve stmt yieldsFirst unbound.1,
        cleared_resolveStmts rest yieldsRest unbound.2]

theorem cleared_resolveFunction (kind : FunctionKind) : (function : FunctionDeclaration) →
    ∀ ⦃before after : Resolver⦄ ⦃found : FunctionDeclaration⦄,
    Yields (resolveFunction kind function) before found after → unboundFunction function →
    clearedFunction found = function
  | ⟨name, parameters, body, isGetter⟩ => by
      intro before after found yields unbound
      simp only [resolveFunction, yields_bind, yields_pure] at yields
      obtain ⟨_, _, _, _, _, _, _, _, _, _, _, _, _, _, yieldsBody, _, _, _, _, _, _, rfl, _⟩ :=
        yields
      simp only [clearedFunction, cleared_resolveStmts body yieldsBody unbound.2.2]

theorem cleared_resolveMethods : (methods : List FunctionDeclaration) →
    ∀ ⦃before after : Resolver⦄ ⦃found : List FunctionDeclaration⦄,
    Yields (resolveMethods methods) before found after → unboundFunctions methods →
    clearedFunctions found = methods
  | [] => by
      intro before after found yields _
      obtain ⟨rfl, _⟩ := yields_pure.mp yields
      rfl
  | method :: rest => by
      intro before after found yields unbound
      simp only [resolveMethods, yields_bind, yields_pure] at yields
      obtain ⟨_, _, yieldsFirst, _, _, yieldsRest, rfl, _⟩ := yields
      simp only [clearedFunctions, cleared_resolveFunction _ method yieldsFirst unbound.1,
        cleared_resolveMethods rest yieldsRest unbound.2]

end

/-- What a program is bound to is that program without addresses. -/
theorem cleared_bound (resolver : Resolver) {program : Program}
    (unbound : unboundStmts program.statements) :
    (resolver.resolve program).program.cleared = program :=
  congrArg Program.mk (cleared_resolveStmts program.statements (yields_run _ _) unbound)

end Binding

end Lox
