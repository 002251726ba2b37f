import Lox.Binding.Scope

/-!
Contract: binding of names.

One pass over a tree gives every use of a local variable its address and checks
the rules about names, jumps and classes. Scopes are opened by blocks, by
functions for their parameters and body together, and by classes for `super`,
where there is a superclass, and for `this`. A name that no scope declares is
left without address and means a global.

The globals that are known stay with the resolver from one program to the next;
all else that it keeps is back in its first state when a program is done.

Owns: the pass and the rules. Does not own: what an address means at run time.
-/

namespace Lox

namespace Binding

/-- The innermost function around a place. -/
inductive FunctionKind where
  | none | function | method | initializer
deriving DecidableEq, Repr

/-- The innermost class around a place: a base class has no superclass. -/
inductive ClassKind where
  | none | base | subclass
deriving DecidableEq, Repr

end Binding

open Binding

/-- What the pass knows at a place: the scopes around it, innermost first; the
globals, and whether each is ready; the innermost function and class; the loops
of that function around the place; and the errors so far. -/
structure Resolver where
  scopes : List Scope
  globals : Table Bool
  functionKind : FunctionKind
  classKind : ClassKind
  loopDepth : Nat
  errors : List BindingError

namespace Resolver

/-- A resolver that knows these globals, before its first program. -/
def withGlobals (globals : Table Bool) : Resolver := ⟨[], globals, .none, .none, 0, []⟩

/-- A resolver that knows no globals. -/
def fresh : Resolver := withGlobals .empty

/-- Makes known a global that exists already. -/
def defineGlobal (resolver : Resolver) (name : String) : Resolver :=
  { resolver with globals := resolver.globals.insert name true }

end Resolver

namespace Binding

/-- A step of the pass. -/
abbrev Pass := StateM Resolver

/-- Reports a broken rule. -/
def report (cause : BindingError.Cause) (lexeme : String) (span : Span) : Pass Unit :=
  modify fun resolver =>
    { resolver with errors := resolver.errors ++ [⟨cause, lexeme, span⟩] }

/-- Reports a broken rule if it is broken. -/
def reportIf (broken : Bool) (cause : BindingError.Cause) (lexeme : String) (span : Span) :
    Pass Unit :=
  if broken then report cause lexeme span else pure ()

/-- Opens a scope. -/
def openScope (scope : Scope) : Pass Unit :=
  modify fun resolver => { resolver with scopes := scope :: resolver.scopes }

/-- Closes the innermost scope. -/
def closeScope : Pass Unit :=
  modify fun resolver => { resolver with scopes := resolver.scopes.tail }

/-- Declares a name. A local name may be declared once; a global that exists
stays as it is. -/
def declare (name : Name) : Pass Unit := do
  let resolver ← get
  match resolver.scopes with
  | [] => set { resolver with globals := resolver.globals.insertIfNew name.text false }
  | scope :: outer =>
      if (scope.slot? name.text).isSome then report .duplicate name.text name.span
      else set { resolver with scopes := scope.declare name.text :: outer }

/-- Marks a declared name as ready. -/
def define (name : Name) : Pass Unit :=
  modify fun resolver =>
    match resolver.scopes with
    | [] => { resolver with globals := resolver.globals.insert name.text true }
    | scope :: outer => { resolver with scopes := scope.define name.text :: outer }

/-- Declares parameters, which are ready at once. -/
def declareParameters : List Name → Pass Unit
  | [] => pure ()
  | parameter :: rest => do
      declare parameter
      define parameter
      declareParameters rest

/-- The address of a name at this place; the old one if no scope declares it. -/
def lookUp (name : String) (old : Option Address) : Pass (Option Address) := do
  return (address? name (← get).scopes).or old

/-- Whether a name read at this place is the one whose initializer this is. The
initializer of a global is left inside a function. -/
def inOwnInitializer (resolver : Resolver) (name : String) : Bool :=
  match resolver.scopes with
  | scope :: _ => scope.isPending name
  | [] => resolver.functionKind == .none && resolver.globals.find? name == some false

/-- Binds the use of a variable that is read. -/
def readVariable (reference : Reference) : Pass Reference := do
  let name := reference.name
  reportIf (inOwnInitializer (← get) name.text) .ownInitializer name.text name.span
  return { reference with address := ← lookUp name.text reference.address }

/-- Binds the superclass of a class, which may not be the class itself. -/
def readSuperclass (className : Name) : Option Reference → Pass (Option Reference)
  | none => return none
  | some superclass => do
      reportIf (superclass.name.text == className.text) .inheritsFromItself
        superclass.name.text superclass.name.span
      modify fun resolver => { resolver with classKind := .subclass }
      let bound ← readVariable superclass
      openScope (.implicit "super")
      return some bound

/-- Binds the word `this`. -/
def readThis (address : Option Address) (span : Span) : Pass (Option Address) := do
  if (← get).classKind = .none then
    report .thisOutsideClass "this" span
    return address
  else lookUp "this" address

/-- Binds the word `super`. -/
def readSuper (address : Option Address) (span : Span) : Pass (Option Address) := do
  match (← get).classKind with
  | .none => report .superOutsideClass "super" span
  | .base => report .superWithoutSuperclass "super" span
  | .subclass => pure ()
  lookUp "super" address

/-- The kind of a method. -/
def methodKind (declaration : FunctionDeclaration) : FunctionKind :=
  if declaration.isInitializer then .initializer else .method

/-- Checks a `return` statement, with a value or without. -/
def checkReturn (hasValue : Bool) (span : Span) : Pass Unit := do
  let kind := (← get).functionKind
  reportIf (kind == .none) .returnOutsideFunction "return" span
  reportIf (hasValue && kind == .initializer) .returnFromInitializer "return" span

/-- Checks that a jump stands in a loop. -/
def checkJump (cause : BindingError.Cause) (lexeme : String) (span : Span) : Pass Unit := do
  reportIf ((← get).loopDepth == 0) cause lexeme span

end Binding

mutual

/-- Binds the names in an expression. The value of an assignment is bound before
its target, and the value of a property before its object. -/
def Expr.resolve : Expr → Pass Expr
  | .literal value span => return .literal value span
  | .grouping inner span => return .grouping (← inner.resolve) span
  | .variable reference => return .variable (← readVariable reference)
  | .assign target value span => do
      let value ← value.resolve
      let address ← lookUp target.name.text target.address
      return .assign { target with address := address } value span
  | .unary operator operand span => return .unary operator (← operand.resolve) span
  | .binary operator left right span => do
      let left ← left.resolve
      return .binary operator left (← right.resolve) span
  | .logical operator left right span => do
      let left ← left.resolve
      return .logical operator left (← right.resolve) span
  | .call callee arguments span => do
      let callee ← callee.resolve
      return .call callee (← resolveExprs arguments) span
  | .get object name => return .get (← object.resolve) name
  | .set object name value span => do
      let value ← value.resolve
      return .set (← object.resolve) name value span
  | .this address span => return .this (← readThis address span) span
  | .super address method span => return .super (← readSuper address span) method span
  | .lambda function => return .lambda (← resolveFunction .function function)

/-- Binds the names in expressions, in order. -/
def resolveExprs : List Expr → Pass (List Expr)
  | [] => return []
  | expr :: rest => do
      let expr ← expr.resolve
      return expr :: (← resolveExprs rest)

/-- Binds the names in an optional expression. -/
def resolveOptionalExpr : Option Expr → Pass (Option Expr)
  | none => return none
  | some expr => return some (← expr.resolve)

/-- Binds the names in a statement. -/
def Stmt.resolve : Stmt → Pass Stmt
  | .expression value span => return .expression (← value.resolve) span
  | .print value span => return .print (← value.resolve) span
  | .var name initializer span => do
      declare name
      let initializer ← resolveOptionalExpr initializer
      define name
      return .var name initializer span
  | .block statements span => do
      openScope []
      let statements ← resolveStmts statements
      closeScope
      return .block statements span
  | .conditional condition thenBranch elseBranch span => do
      let condition ← condition.resolve
      let thenBranch ← thenBranch.resolve
      return .conditional condition thenBranch (← resolveOptionalStmt elseBranch) span
  | .loop condition body increment span => do
      let condition ← condition.resolve
      modify fun resolver => { resolver with loopDepth := resolver.loopDepth + 1 }
      let body ← body.resolve
      modify fun resolver => { resolver with loopDepth := resolver.loopDepth - 1 }
      return .loop condition body (← resolveOptionalExpr increment) span
  | .function declaration span => do
      declare declaration.name
      define declaration.name
      return .function (← resolveFunction .function declaration) span
  | .return value span => do
      checkReturn value.isSome span
      return .return (← resolveOptionalExpr value) span
  | .class name superclass methods span => do
      let enclosing := (← get).classKind
      modify fun resolver => { resolver with classKind := .base }
      declare name
      define name
      let superclass ← readSuperclass name superclass
      openScope (.implicit "this")
      let methods ← resolveMethods methods
      closeScope
      if superclass.isSome then closeScope
      modify fun resolver => { resolver with classKind := enclosing }
      return .class name superclass methods span
  | .break span => do
      checkJump .breakOutsideLoop "break" span
      return .break span
  | .continue span => do
      checkJump .continueOutsideLoop "continue" span
      return .continue span

/-- Binds the names in an optional statement. -/
def resolveOptionalStmt : Option Stmt → Pass (Option Stmt)
  | none => return none
  | some stmt => return some (← stmt.resolve)

/-- Binds the names in statements, in order. -/
def resolveStmts : List Stmt → Pass (List Stmt)
  | [] => return []
  | stmt :: rest => do
      let stmt ← stmt.resolve
      return stmt :: (← resolveStmts rest)

/-- Binds the names in a function: parameters and body share one scope, and the
loops around the function do not count inside it. -/
def resolveFunction (kind : FunctionKind) : FunctionDeclaration → Pass FunctionDeclaration
  | ⟨name, parameters, body, isGetter⟩ => do
      let enclosing ← get
      modify fun resolver => { resolver with functionKind := kind, loopDepth := 0 }
      openScope []
      declareParameters parameters
      let body ← resolveStmts body
      closeScope
      modify fun resolver =>
        { resolver with
          functionKind := enclosing.functionKind
          loopDepth := enclosing.loopDepth }
      return ⟨name, parameters, body, isGetter⟩

/-- Binds the names in methods, in order. -/
def resolveMethods : List FunctionDeclaration → Pass (List FunctionDeclaration)
  | [] => return []
  | method :: rest => do
      let method ← resolveFunction (methodKind method) method
      return method :: (← resolveMethods rest)

end

/-- What binding a program yields: the tree with its addresses, the errors, and
the resolver for the next program. -/
structure Resolution where
  program : Program
  errors : List BindingError
  resolver : Resolver

/-- Binds the names of a program. -/
def Resolver.resolve (resolver : Resolver) (program : Program) : Resolution :=
  let (statements, resolver) := (resolveStmts program.statements).run resolver
  ⟨⟨statements⟩, resolver.errors, { resolver with errors := [] }⟩

end Lox
