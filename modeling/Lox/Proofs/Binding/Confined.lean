import Lox.Proofs.Binding.Bound

/-!
Contract: jumps have something to jump out of.

The enclosure of a place is the innermost function around it and whether a loop of that
function is around it. A tree is `Confined` in an enclosure if its `break` and
`continue` statements stand in loops, its `return` statements in functions, and those of
an initializer return no value. The loops around a function do not count inside it.

Main statement: `AtTop.confined`. If the pass over names finds no error in a program,
the tree that it yields is confined.

Owns: enclosures, `Confined`, and soundness of the pass for it. Does not own: running.
-/

set_option autoImplicit false

namespace Lox

open Binding

/-- The innermost function around a place, and whether a loop of the function is. -/
structure Enclosure where
  kind : FunctionKind
  inLoop : Bool
deriving DecidableEq, Repr

namespace Enclosure

/-- The enclosure of a program. -/
def outside : Enclosure := ⟨.none, false⟩

/-- The enclosure of the body of a function. -/
def body (kind : FunctionKind) : Enclosure := ⟨kind, false⟩

/-- The enclosure of the body of a loop. -/
def round (enclosure : Enclosure) : Enclosure := { enclosure with inLoop := true }

/-- A `return` statement may stand here, with a value or without. -/
def Returns (enclosure : Enclosure) (hasValue : Bool) : Prop :=
  enclosure.kind ≠ .none ∧ (enclosure.kind = .initializer → hasValue = false)

end Enclosure

/-! ## Confined trees -/

mutual

/-- The jumps in the functions of the expression are confined. -/
def Expr.Confined : Expr → Prop
  | .literal _ _ => True
  | .grouping inner _ => inner.Confined
  | .variable _ => True
  | .assign _ value _ => value.Confined
  | .unary _ operand _ => operand.Confined
  | .binary _ left right _ => left.Confined ∧ right.Confined
  | .logical _ left right _ => left.Confined ∧ right.Confined
  | .call callee arguments _ => callee.Confined ∧ confinedExprs arguments
  | .get object _ => object.Confined
  | .set object _ value _ => object.Confined ∧ value.Confined
  | .this _ _ => True
  | .super _ _ _ => True
  | .lambda function => confinedFunction .function function

/-- The jumps in the functions of the expressions are confined. -/
def confinedExprs : List Expr → Prop
  | [] => True
  | expr :: rest => expr.Confined ∧ confinedExprs rest

/-- The jumps in the functions of the expression, if there is one, are confined. -/
def confinedOptionalExpr : Option Expr → Prop
  | none => True
  | some expr => expr.Confined

/-- The jumps in the statement are confined. -/
def Stmt.Confined (enclosure : Enclosure) : Stmt → Prop
  | .expression value _ => value.Confined
  | .print value _ => value.Confined
  | .var _ initializer _ => confinedOptionalExpr initializer
  | .block statements _ => confinedStmts enclosure statements
  | .conditional condition thenBranch elseBranch _ =>
      condition.Confined ∧ thenBranch.Confined enclosure ∧
        confinedOptionalStmt enclosure elseBranch
  | .loop condition body increment _ =>
      condition.Confined ∧ body.Confined enclosure.round ∧ confinedOptionalExpr increment
  | .function declaration _ => confinedFunction .function declaration
  | .return value _ => enclosure.Returns value.isSome ∧ confinedOptionalExpr value
  | .class _ _ methods _ => confinedMethods methods
  | .break _ => enclosure.inLoop = true
  | .continue _ => enclosure.inLoop = true

/-- The jumps in the statement, if there is one, are confined. -/
def confinedOptionalStmt (enclosure : Enclosure) : Option Stmt → Prop
  | none => True
  | some stmt => stmt.Confined enclosure

/-- The jumps in the statements are confined. -/
def confinedStmts (enclosure : Enclosure) : List Stmt → Prop
  | [] => True
  | stmt :: rest => stmt.Confined enclosure ∧ confinedStmts enclosure rest

/-- The jumps in the function are confined. -/
def confinedFunction (kind : FunctionKind) : FunctionDeclaration → Prop
  | ⟨_, _, body, _⟩ => confinedStmts (.body kind) body

/-- The jumps in the methods are confined. -/
def confinedMethods : List FunctionDeclaration → Prop
  | [] => True
  | method :: rest => confinedFunction (methodKind method) method ∧ confinedMethods rest

end

theorem confinedFunction_iff (kind : FunctionKind) (function : FunctionDeclaration) :
    confinedFunction kind function ↔ confinedStmts (.body kind) function.body := by
  cases function
  exact Iff.rfl

namespace Binding

/-! ## Accepted jumps -/

/-- The enclosure that the pass finds itself in. -/
def enclosureOf (resolver : Resolver) : Enclosure :=
  ⟨resolver.functionKind, resolver.loopDepth != 0⟩

theorem Quiet.enclosureOf {before after : Resolver} (quiet : Quiet before after) :
    enclosureOf after = enclosureOf before := by
  obtain ⟨_, rfl⟩ := quiet
  rfl

theorem Steady.enclosureOf {before after : Resolver} (steady : Steady before after) :
    enclosureOf after = enclosureOf before := by
  unfold Binding.enclosureOf
  rw [steady.functionKind, steady.loopDepth]

theorem AtTop.enclosureOf {resolver : Resolver} (atTop : AtTop resolver) :
    enclosureOf resolver = .outside := by
  unfold Binding.enclosureOf
  rw [atTop.functionKind, atTop.loopDepth]
  rfl

theorem checkReturn_accepted {hasValue : Bool} {span : Span} {before after : Resolver}
    {found : Unit} (yields : Yields (checkReturn hasValue span) before found after)
    (accepted : after.errors = []) : (enclosureOf before).Returns hasValue := by
  simp only [checkReturn, yields_bind, yields_get, yields_reportIf] at yields
  obtain ⟨_, _, ⟨rfl, rfl⟩, _, _, rfl, rfl⟩ := yields
  refine ⟨?_, ?_⟩
  · intro outside
    have noFunction : before.functionKind = .none := outside
    simp [noFunction] at accepted
  · intro initializer
    have inInitializer : before.functionKind = .initializer := initializer
    cases hasValue with
    | true => simp [inInitializer] at accepted
    | false => rfl

theorem checkJump_accepted {cause : BindingError.Cause} {lexeme : String} {span : Span}
    {before after : Resolver} {found : Unit}
    (yields : Yields (checkJump cause lexeme span) before found after)
    (accepted : after.errors = []) : (enclosureOf before).inLoop = true := by
  simp only [checkJump, yields_bind, yields_get, yields_reportIf] at yields
  obtain ⟨_, _, ⟨rfl, rfl⟩, rfl⟩ := yields
  simp only [Binding.enclosureOf, bne_iff_ne]
  intro noLoop
  simp [noLoop] at accepted

theorem isSome_resolveOptionalExpr {expr found : Option Expr} {before after : Resolver}
    (yields : Yields (resolveOptionalExpr expr) before found after) :
    found.isSome = expr.isSome := by
  cases expr with
  | none =>
      obtain ⟨rfl, _⟩ := yields_pure.mp yields
      rfl
  | some expr =>
      simp only [resolveOptionalExpr, yields_bind, yields_pure] at yields
      obtain ⟨_, _, _, rfl, _⟩ := yields
      rfl

theorem methodKind_resolveFunction {kind : FunctionKind} {function found : FunctionDeclaration}
    {before after : Resolver} (yields : Yields (resolveFunction kind function) before found after) :
    methodKind found = methodKind function := by
  obtain ⟨name, parameters, body, isGetter⟩ := function
  simp only [resolveFunction, yields_bind, yields_get, yields_modify, yields_openScope,
    yields_closeScope, yields_pure] at yields
  obtain ⟨_, _, _, _, _, _, _, _, _, _, _, _, _, _, _, _, _, _, _, _, _, rfl, _⟩ := yields
  rfl

/-! ## Accepted trees -/

mutual

theorem confined_resolve : (expr : Expr) → ∀ ⦃before after : Resolver⦄ ⦃found : Expr⦄,
    Yields expr.resolve before found after → after.errors = [] → found.Confined
  | .literal _ _ => by
      intro before after found yields _
      obtain ⟨rfl, _⟩ := yields_pure.mp yields
      trivial
  | .grouping inner _ => by
      intro before after found yields accepted
      simp only [Expr.resolve, yields_bind, yields_pure] at yields
      obtain ⟨_, _, yieldsInner, rfl, rfl⟩ := yields
      have confined := confined_resolve inner yieldsInner accepted
      exact confined
  | .variable reference => by
      intro before after found yields _
      simp only [Expr.resolve, yields_bind, yields_pure] at yields
      obtain ⟨_, _, _, rfl, rfl⟩ := yields
      trivial
  | .assign target value _ => by
      intro before after found yields accepted
      simp only [Expr.resolve, yields_bind, yields_lookUp, yields_pure] at yields
      obtain ⟨_, _, yieldsValue, _, _, ⟨_, rfl⟩, rfl, rfl⟩ := yields
      have confined := confined_resolve value yieldsValue accepted
      exact confined
  | .unary _ operand _ => by
      intro before after found yields accepted
      simp only [Expr.resolve, yields_bind, yields_pure] at yields
      obtain ⟨_, _, yieldsOperand, rfl, rfl⟩ := yields
      have confined := confined_resolve operand yieldsOperand accepted
      exact confined
  | .binary _ left right _ => by
      intro before after found yields accepted
      simp only [Expr.resolve, yields_bind, yields_pure] at yields
      obtain ⟨_, _, yieldsLeft, _, _, yieldsRight, rfl, rfl⟩ := yields
      have acceptedLeft := (quiet_resolve right yieldsRight).accepted accepted
      exact ⟨confined_resolve left yieldsLeft acceptedLeft,
        confined_resolve right yieldsRight accepted⟩
  | .logical _ left right _ => by
      intro before after found yields accepted
      simp only [Expr.resolve, yields_bind, yields_pure] at yields
      obtain ⟨_, _, yieldsLeft, _, _, yieldsRight, rfl, rfl⟩ := yields
      have acceptedLeft := (quiet_resolve right yieldsRight).accepted accepted
      exact ⟨confined_resolve left yieldsLeft acceptedLeft,
        confined_resolve right yieldsRight accepted⟩
  | .call callee arguments _ => by
      intro before after found yields accepted
      simp only [Expr.resolve, yields_bind, yields_pure] at yields
      obtain ⟨_, _, yieldsCallee, _, _, yieldsArguments, rfl, rfl⟩ := yields
      have acceptedCallee := (quiet_resolveExprs arguments yieldsArguments).accepted accepted
      exact ⟨confined_resolve callee yieldsCallee acceptedCallee,
        confined_resolveExprs arguments yieldsArguments accepted⟩
  | .get object _ => by
      intro before after found yields accepted
      simp only [Expr.resolve, yields_bind, yields_pure] at yields
      obtain ⟨_, _, yieldsObject, rfl, rfl⟩ := yields
      have confined := confined_resolve object yieldsObject accepted
      exact confined
  | .set object _ value _ => by
      intro before after found yields accepted
      simp only [Expr.resolve, yields_bind, yields_pure] at yields
      obtain ⟨_, _, yieldsValue, _, _, yieldsObject, rfl, rfl⟩ := yields
      have acceptedValue := (quiet_resolve object yieldsObject).accepted accepted
      exact ⟨confined_resolve object yieldsObject accepted,
        confined_resolve value yieldsValue acceptedValue⟩
  | .this _ _ => by
      intro before after found yields _
      simp only [Expr.resolve, yields_bind, yields_pure] at yields
      obtain ⟨_, _, _, rfl, rfl⟩ := yields
      trivial
  | .super _ _ _ => by
      intro before after found yields _
      simp only [Expr.resolve, yields_bind, yields_pure] at yields
      obtain ⟨_, _, _, rfl, rfl⟩ := yields
      trivial
  | .lambda function => by
      intro before after found yields accepted
      simp only [Expr.resolve, yields_bind, yields_pure] at yields
      obtain ⟨_, _, yieldsFunction, rfl, rfl⟩ := yields
      exact confined_resolveFunction .function function yieldsFunction accepted

theorem confined_resolveExprs : (exprs : List Expr) →
    ∀ ⦃before after : Resolver⦄ ⦃found : List Expr⦄,
    Yields (resolveExprs exprs) before found after → after.errors = [] → confinedExprs found
  | [] => by
      intro before after found yields _
      obtain ⟨rfl, _⟩ := yields_pure.mp yields
      trivial
  | expr :: rest => by
      intro before after found yields accepted
      simp only [resolveExprs, yields_bind, yields_pure] at yields
      obtain ⟨_, _, yieldsFirst, _, _, yieldsRest, rfl, rfl⟩ := yields
      have acceptedFirst := (quiet_resolveExprs rest yieldsRest).accepted accepted
      exact ⟨confined_resolve expr yieldsFirst acceptedFirst,
        confined_resolveExprs rest yieldsRest accepted⟩

theorem confined_resolveOptionalExpr : (expr : Option Expr) →
    ∀ ⦃before after : Resolver⦄ ⦃found : Option Expr⦄,
    Yields (resolveOptionalExpr expr) before found after → after.errors = [] →
    confinedOptionalExpr found
  | none => by
      intro before after found yields _
      obtain ⟨rfl, _⟩ := yields_pure.mp yields
      trivial
  | some expr => by
      intro before after found yields accepted
      simp only [resolveOptionalExpr, yields_bind, yields_pure] at yields
      obtain ⟨_, _, yieldsExpr, rfl, rfl⟩ := yields
      exact confined_resolve expr yieldsExpr accepted

theorem confinedStmt_resolve : (stmt : Stmt) → ∀ ⦃before after : Resolver⦄ ⦃found : Stmt⦄,
    Yields stmt.resolve before found after → after.errors = [] →
    found.Confined (enclosureOf before)
  | .expression value _ => by
      intro before after found yields accepted
      simp only [Stmt.resolve, yields_bind, yields_pure] at yields
      obtain ⟨_, _, yieldsValue, rfl, rfl⟩ := yields
      exact confined_resolve value yieldsValue accepted
  | .print value _ => by
      intro before after found yields accepted
      simp only [Stmt.resolve, yields_bind, yields_pure] at yields
      obtain ⟨_, _, yieldsValue, rfl, rfl⟩ := yields
      exact confined_resolve value yieldsValue accepted
  | .var name initializer _ => by
      intro before after found yields accepted
      simp only [Stmt.resolve, yields_bind, yields_pure] at yields
      obtain ⟨_, _, _, _, _, yieldsInitializer, _, _, defines, rfl, rfl⟩ := yields
      have acceptedInitializer := (steady_define name defines).accepted accepted
      exact confined_resolveOptionalExpr initializer yieldsInitializer acceptedInitializer
  | .block statements _ => by
      intro before after found yields accepted
      simp only [Stmt.resolve, yields_bind, yields_openScope, yields_closeScope,
        yields_pure] at yields
      obtain ⟨_, _, rfl, _, _, yieldsBody, _, _, rfl, rfl, rfl⟩ := yields
      have confined := confined_resolveStmts statements yieldsBody accepted
      exact confined
  | .conditional condition thenBranch elseBranch _ => by
      intro before after found yields accepted
      simp only [Stmt.resolve, yields_bind, yields_pure] at yields
      obtain ⟨_, _, yieldsCondition, _, _, yieldsThen, _, _, yieldsElse, rfl, rfl⟩ := yields
      have acceptedThen := (steady_resolveOptionalStmt elseBranch yieldsElse).accepted accepted
      have acceptedCondition := (steady_resolve thenBranch yieldsThen).accepted acceptedThen
      have confinedThen := confinedStmt_resolve thenBranch yieldsThen acceptedThen
      have confinedElse := confinedOptionalStmt_resolve elseBranch yieldsElse accepted
      rw [(steady_resolve thenBranch yieldsThen).enclosureOf] at confinedElse
      rw [(quiet_resolve condition yieldsCondition).enclosureOf] at confinedThen confinedElse
      exact ⟨confined_resolve condition yieldsCondition acceptedCondition, confinedThen,
        confinedElse⟩
  | .loop condition body increment _ => by
      intro before after found yields accepted
      simp only [Stmt.resolve, yields_bind, yields_modify, yields_pure] at yields
      obtain ⟨_, tested, yieldsCondition, _, _, rfl, _, _, yieldsBody, _, _, rfl, _, _,
        yieldsIncrement, rfl, rfl⟩ := yields
      have acceptedBody := (quiet_resolveOptionalExpr increment yieldsIncrement).accepted accepted
      have acceptedCondition := (steady_resolve body yieldsBody).accepted acceptedBody
      have confinedBody := confinedStmt_resolve body yieldsBody acceptedBody
      have round : enclosureOf { tested with loopDepth := tested.loopDepth + 1 } =
          (enclosureOf before).round := by
        rw [← (quiet_resolve condition yieldsCondition).enclosureOf]
        simp [Binding.enclosureOf, Enclosure.round]
      rw [round] at confinedBody
      exact ⟨confined_resolve condition yieldsCondition acceptedCondition, confinedBody,
        confined_resolveOptionalExpr increment yieldsIncrement accepted⟩
  | .function declaration _ => by
      intro before after found yields accepted
      simp only [Stmt.resolve, yields_bind, yields_pure] at yields
      obtain ⟨_, _, _, _, _, _, _, _, yieldsFunction, rfl, rfl⟩ := yields
      exact confined_resolveFunction .function declaration yieldsFunction accepted
  | .return value _ => by
      intro before after found yields accepted
      simp only [Stmt.resolve, yields_bind, yields_pure] at yields
      obtain ⟨_, _, checks, _, _, yieldsValue, rfl, rfl⟩ := yields
      have acceptedCheck := (quiet_resolveOptionalExpr value yieldsValue).accepted accepted
      have returns := checkReturn_accepted checks acceptedCheck
      rw [← isSome_resolveOptionalExpr yieldsValue] at returns
      exact ⟨returns, confined_resolveOptionalExpr value yieldsValue accepted⟩
  | .class _ _ methods _ => by
      intro before after found yields accepted
      obtain ⟨_, _, rfl, ⟨_, _, done, _, _, binds, rfl⟩⟩ := yields_class yields
      exact confined_resolveMethods methods binds accepted
  | .break _ => by
      intro before after found yields accepted
      simp only [Stmt.resolve, yields_bind, yields_pure] at yields
      obtain ⟨_, _, checks, rfl, rfl⟩ := yields
      exact checkJump_accepted checks accepted
  | .continue _ => by
      intro before after found yields accepted
      simp only [Stmt.resolve, yields_bind, yields_pure] at yields
      obtain ⟨_, _, checks, rfl, rfl⟩ := yields
      exact checkJump_accepted checks accepted

theorem confinedOptionalStmt_resolve : (stmt : Option Stmt) →
    ∀ ⦃before after : Resolver⦄ ⦃found : Option Stmt⦄,
    Yields (resolveOptionalStmt stmt) before found after → after.errors = [] →
    confinedOptionalStmt (enclosureOf before) found
  | none => by
      intro before after found yields _
      obtain ⟨rfl, _⟩ := yields_pure.mp yields
      trivial
  | some stmt => by
      intro before after found yields accepted
      simp only [resolveOptionalStmt, yields_bind, yields_pure] at yields
      obtain ⟨_, _, yieldsStmt, rfl, rfl⟩ := yields
      exact confinedStmt_resolve stmt yieldsStmt accepted

theorem confined_resolveStmts : (stmts : List Stmt) →
    ∀ ⦃before after : Resolver⦄ ⦃found : List Stmt⦄,
    Yields (resolveStmts stmts) before found after → after.errors = [] →
    confinedStmts (enclosureOf before) found
  | [] => by
      intro before after found yields _
      obtain ⟨rfl, _⟩ := yields_pure.mp yields
      trivial
  | stmt :: rest => by
      intro before after found yields accepted
      simp only [resolveStmts, yields_bind, yields_pure] at yields
      obtain ⟨_, _, yieldsFirst, _, _, yieldsRest, rfl, rfl⟩ := yields
      have acceptedFirst := (steady_resolveStmts rest yieldsRest).accepted accepted
      have confinedRest := confined_resolveStmts rest yieldsRest accepted
      rw [(steady_resolve stmt yieldsFirst).enclosureOf] at confinedRest
      exact ⟨confinedStmt_resolve stmt yieldsFirst acceptedFirst, confinedRest⟩

theorem confined_resolveFunction (kind : FunctionKind) : (function : FunctionDeclaration) →
    ∀ ⦃before after : Resolver⦄ ⦃found : FunctionDeclaration⦄,
    Yields (resolveFunction kind function) before found after → after.errors = [] →
    confinedFunction kind found
  | ⟨name, parameters, body, isGetter⟩ => by
      intro before after found yields accepted
      simp only [resolveFunction, yields_bind, yields_get, yields_modify, yields_openScope,
        yields_closeScope, yields_pure] at yields
      obtain ⟨_, _, ⟨rfl, rfl⟩, _, _, rfl, _, _, rfl, _, _, declares, _, _, yieldsBody, _, _,
        rfl, _, _, rfl, rfl, rfl⟩ := yields
      have confinedBody := confined_resolveStmts body yieldsBody accepted
      rw [(steady_declareParameters parameters declares).enclosureOf] at confinedBody
      exact confinedBody

theorem confined_resolveMethods : (methods : List FunctionDeclaration) →
    ∀ ⦃before after : Resolver⦄ ⦃found : List FunctionDeclaration⦄,
    Yields (resolveMethods methods) before found after → after.errors = [] →
    confinedMethods found
  | [] => by
      intro before after found yields _
      obtain ⟨rfl, _⟩ := yields_pure.mp yields
      trivial
  | method :: rest => by
      intro before after found yields accepted
      simp only [resolveMethods, yields_bind, yields_pure] at yields
      obtain ⟨_, _, yieldsFirst, _, _, yieldsRest, rfl, rfl⟩ := yields
      have acceptedFirst := (quiet_resolveMethods rest yieldsRest).accepted accepted
      have confinedFirst := confined_resolveFunction _ method yieldsFirst acceptedFirst
      rw [← methodKind_resolveFunction yieldsFirst] at confinedFirst
      exact ⟨confinedFirst, confined_resolveMethods rest yieldsRest accepted⟩

end

/-- A program without errors is confined. -/
theorem AtTop.confined {resolver : Resolver} (atTop : AtTop resolver) {program : Program}
    (accepted : (resolver.resolve program).errors = []) :
    confinedStmts .outside (resolver.resolve program).program.statements := by
  obtain ⟨after, yields, errors, _⟩ := yields_resolve resolver program
  have confined := confined_resolveStmts program.statements yields (errors ▸ accepted)
  rwa [atTop.enclosureOf] at confined

end Binding

end Lox
