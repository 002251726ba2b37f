import Lox.Binding.Resolver
import Lox.Proofs.Places.Tree

/-!
Contract: the binding of names does not look at places.

The pass over a moved tree makes the moved tree, and complains of the same at moved
places. A program may also be bound in two parts: the second part is bound as a program of
its own behind the first.

Main statements: `Resolver.resolve_moved`, `Resolver.resolve_append`.

Owns: passes that commute with moving. Does not own: which programs have errors.
-/

set_option autoImplicit false

namespace Lox

/-- The error at another place. -/
def BindingError.moved (move : Span → Span) (error : BindingError) : BindingError :=
  ⟨error.cause, error.lexeme, move error.span⟩

/-- The resolver with its errors at other places. -/
def Resolver.moved (move : Span → Span) (resolver : Resolver) : Resolver :=
  { resolver with errors := resolver.errors.map (BindingError.moved move) }

/-- Where there are no errors there is nothing to move. -/
theorem Resolver.moved_of_clean (move : Span → Span) {resolver : Resolver}
    (clean : resolver.errors = []) : resolver.moved move = resolver := by
  obtain ⟨scopes, globals, functionKind, classKind, loopDepth, errors⟩ := resolver
  obtain rfl : errors = [] := clean
  rfl

namespace Binding

variable {α β : Type}

/-- From a moved resolver the one pass finds what the other finds, changed, and leaves what
it leaves, moved. -/
def Commutes (move : Span → Span) (change : α → α) (moved pass : Pass α) : Prop :=
  ∀ resolver : Resolver,
    moved.run (resolver.moved move) =
      (change (pass.run resolver).1, (pass.run resolver).2.moved move)

namespace Commutes

variable {move : Span → Span}

theorem pure {change : α → α} (value : α) :
    Commutes move change (Pure.pure (change value)) (Pure.pure value) :=
  fun _ => rfl

theorem bind {change : α → α} {changeNext : β → β} {moved pass : Pass α}
    {movedNext next : α → Pass β} (first : Commutes move change moved pass)
    (second : ∀ value, Commutes move changeNext (movedNext (change value)) (next value)) :
    Commutes move changeNext (moved >>= movedNext) (pass >>= next) := by
  intro resolver
  have both (pass : Pass α) (next : α → Pass β) (resolver : Resolver) :
      (pass >>= next).run resolver = (next (pass.run resolver).1).run (pass.run resolver).2 := rfl
  rw [both, both, first resolver, second]

theorem get : Commutes move (Resolver.moved move) MonadState.get MonadState.get := fun _ => rfl

theorem set (resolver : Resolver) :
    Commutes move id (MonadStateOf.set (resolver.moved move)) (MonadStateOf.set resolver) :=
  fun _ => rfl

theorem modify {change : Resolver → Resolver}
    (commutes : ∀ resolver : Resolver, change (resolver.moved move) = (change resolver).moved move) :
    Commutes move id (MonadState.modifyGet fun resolver => ((), change resolver))
      (MonadState.modifyGet fun resolver => ((), change resolver)) :=
  fun resolver => congrArg (Prod.mk _) (commutes resolver)

end Commutes

section Passes

variable (move : Span → Span)

/-! ## Rules about names, jumps and classes -/

theorem commutes_report (cause : BindingError.Cause) (lexeme : String) (span : Span) :
    Commutes move id (report cause lexeme (move span)) (report cause lexeme span) := by
  intro resolver
  have appended : (resolver.errors ++ [BindingError.mk cause lexeme span]).map
      (BindingError.moved move) =
        resolver.errors.map (BindingError.moved move) ++ [⟨cause, lexeme, move span⟩] :=
    List.map_append
  exact Prod.ext rfl (congrArg (fun errors => { resolver with errors := errors }) appended.symm)

theorem commutes_reportIf (broken : Bool) (cause : BindingError.Cause) (lexeme : String)
    (span : Span) :
    Commutes move id (reportIf broken cause lexeme (move span))
      (reportIf broken cause lexeme span) := by
  cases broken with
  | false => exact .pure ()
  | true => exact commutes_report move cause lexeme span

theorem commutes_openScope (scope : Scope) : Commutes move id (openScope scope) (openScope scope) :=
  .modify fun _ => rfl

theorem commutes_closeScope : Commutes move id closeScope closeScope := .modify fun _ => rfl

theorem commutes_declare (name : Name) :
    Commutes move id (declare (name.moved move)) (declare name) := by
  refine .bind .get fun resolver => ?_
  have sameScopes : (resolver.moved move).scopes = resolver.scopes := rfl
  simp only [sameScopes, Name.moved_text, Name.moved_span]
  split
  · exact .set { resolver with globals := resolver.globals.insertIfNew name.text false }
  · next scope outer _ =>
      by_cases taken : (scope.slot? name.text).isSome = true
      · simp only [taken, if_true]
        exact commutes_report move .duplicate name.text name.span
      · simp only [taken]
        exact .set { resolver with scopes := scope.declare name.text :: outer }

theorem commutes_define (name : Name) :
    Commutes move id (define (name.moved move)) (define name) := by
  refine .modify fun resolver => ?_
  have sameScopes : (resolver.moved move).scopes = resolver.scopes := rfl
  simp only [sameScopes, Name.moved_text]
  split <;> rfl

theorem commutes_declareParameters (parameters : List Name) :
    Commutes move id (declareParameters (parameters.map (Name.moved move)))
      (declareParameters parameters) := by
  induction parameters with
  | nil => exact .pure ()
  | cons parameter rest inductionHypothesis =>
      exact .bind (commutes_declare move parameter) fun _ =>
        .bind (commutes_define move parameter) fun _ => inductionHypothesis

theorem commutes_lookUp (name : String) (old : Option Address) :
    Commutes move id (lookUp name old) (lookUp name old) :=
  .bind .get fun resolver => .pure ((address? name resolver.scopes).or old)

theorem commutes_readVariable (reference : Reference) :
    Commutes move (Reference.moved move) (readVariable (reference.moved move))
      (readVariable reference) :=
  .bind .get fun resolver =>
    .bind (commutes_reportIf move (inOwnInitializer resolver reference.name.text) .ownInitializer
      reference.name.text reference.name.span) fun _ =>
        .bind (commutes_lookUp move reference.name.text reference.address) fun address =>
          .pure { reference with address := address }

theorem commutes_readSuperclass (className : Name) (superclass : Option Reference) :
    Commutes move (Option.map (Reference.moved move))
      (readSuperclass (className.moved move) (superclass.map (Reference.moved move)))
      (readSuperclass className superclass) := by
  cases superclass with
  | none => exact .pure none
  | some superclass =>
      exact .bind (commutes_reportIf move _ _ _ _) fun _ =>
        .bind (Commutes.modify fun _ => rfl) fun _ =>
          .bind (commutes_readVariable move superclass) fun bound =>
            .bind (commutes_openScope move _) fun _ => .pure (some bound)

theorem commutes_readThis (address : Option Address) (span : Span) :
    Commutes move id (readThis address (move span)) (readThis address span) := by
  refine .bind .get fun resolver => ?_
  have sameKind : (resolver.moved move).classKind = resolver.classKind := rfl
  simp only [sameKind]
  split
  · exact .bind (commutes_report move _ _ span) fun _ => .pure address
  · exact commutes_lookUp move _ address

theorem commutes_readSuper (address : Option Address) (span : Span) :
    Commutes move id (readSuper address (move span)) (readSuper address span) := by
  refine .bind .get fun resolver => ?_
  have sameKind : (resolver.moved move).classKind = resolver.classKind := rfl
  simp only [sameKind]
  cases resolver.classKind with
  | none => exact .bind (commutes_report move _ _ span) fun _ => commutes_lookUp move _ address
  | base => exact .bind (commutes_report move _ _ span) fun _ => commutes_lookUp move _ address
  | subclass => exact commutes_lookUp move _ address

theorem commutes_checkReturn (hasValue : Bool) (span : Span) :
    Commutes move id (checkReturn hasValue (move span)) (checkReturn hasValue span) :=
  .bind .get fun resolver =>
    .bind (commutes_reportIf move (resolver.functionKind == .none) _ _ span) fun _ =>
      commutes_reportIf move (hasValue && resolver.functionKind == .initializer) _ _ span

theorem commutes_checkJump (cause : BindingError.Cause) (lexeme : String) (span : Span) :
    Commutes move id (checkJump cause lexeme (move span)) (checkJump cause lexeme span) :=
  .bind .get fun resolver => commutes_reportIf move (resolver.loopDepth == 0) cause lexeme span

/-! ## Trees -/

mutual

theorem commutes_resolve : (expr : Expr) →
    Commutes move (Expr.moved move) (expr.moved move).resolve expr.resolve
  | .literal value span => .pure (Expr.literal value span)
  | .grouping inner span => .bind (commutes_resolve inner) fun inner => .pure (Expr.grouping inner span)
  | .variable reference =>
      .bind (commutes_readVariable move reference) fun reference => .pure (Expr.variable reference)
  | .assign target value span =>
      .bind (commutes_resolve value) fun value =>
        .bind (commutes_lookUp move target.name.text target.address) fun address =>
          .pure (Expr.assign { target with address := address } value span)
  | .unary operator operand span =>
      .bind (commutes_resolve operand) fun operand => .pure (Expr.unary operator operand span)
  | .binary operator left right span =>
      .bind (commutes_resolve left) fun left =>
        .bind (commutes_resolve right) fun right => .pure (Expr.binary operator left right span)
  | .logical operator left right span =>
      .bind (commutes_resolve left) fun left =>
        .bind (commutes_resolve right) fun right => .pure (Expr.logical operator left right span)
  | .call callee arguments span =>
      .bind (commutes_resolve callee) fun callee =>
        .bind (commutes_resolveExprs arguments) fun arguments => .pure (Expr.call callee arguments span)
  | .get object name => .bind (commutes_resolve object) fun object => .pure (Expr.get object name)
  | .set object name value span =>
      .bind (commutes_resolve value) fun value =>
        .bind (commutes_resolve object) fun object => .pure (Expr.set object name value span)
  | .this address span =>
      .bind (commutes_readThis move address span) fun address => .pure (Expr.this address span)
  | .super address method span =>
      .bind (commutes_readSuper move address span) fun address => .pure (Expr.super address method span)
  | .lambda function =>
      .bind (commutes_resolveFunction .function function) fun function => .pure (Expr.lambda function)

theorem commutes_resolveExprs : (exprs : List Expr) →
    Commutes move (movedExprs move) (resolveExprs (movedExprs move exprs)) (resolveExprs exprs)
  | [] => .pure []
  | expr :: rest =>
      .bind (commutes_resolve expr) fun expr =>
        .bind (commutes_resolveExprs rest) fun rest => .pure (expr :: rest)

theorem commutes_resolveOptionalExpr : (expr : Option Expr) →
    Commutes move (movedOptionalExpr move) (resolveOptionalExpr (movedOptionalExpr move expr))
      (resolveOptionalExpr expr)
  | none => .pure none
  | some expr => .bind (commutes_resolve expr) fun expr => .pure (some expr)

theorem commutes_resolveStmt : (stmt : Stmt) →
    Commutes move (Stmt.moved move) (stmt.moved move).resolve stmt.resolve
  | .expression value span =>
      .bind (commutes_resolve value) fun value => .pure (Stmt.expression value span)
  | .print value span => .bind (commutes_resolve value) fun value => .pure (Stmt.print value span)
  | .var name initializer span =>
      .bind (commutes_declare move name) fun _ =>
        .bind (commutes_resolveOptionalExpr initializer) fun initializer =>
          .bind (commutes_define move name) fun _ => .pure (Stmt.var name initializer span)
  | .block statements span =>
      .bind (commutes_openScope move []) fun _ =>
        .bind (commutes_resolveStmts statements) fun statements =>
          .bind (commutes_closeScope move) fun _ => .pure (Stmt.block statements span)
  | .conditional condition thenBranch elseBranch span =>
      .bind (commutes_resolve condition) fun condition =>
        .bind (commutes_resolveStmt thenBranch) fun thenBranch =>
          .bind (commutes_resolveOptionalStmt elseBranch) fun elseBranch =>
            .pure (Stmt.conditional condition thenBranch elseBranch span)
  | .loop condition body increment span =>
      .bind (commutes_resolve condition) fun condition =>
        .bind (Commutes.modify fun _ => rfl) fun _ =>
          .bind (commutes_resolveStmt body) fun body =>
            .bind (Commutes.modify fun _ => rfl) fun _ =>
              .bind (commutes_resolveOptionalExpr increment) fun increment =>
                .pure (Stmt.loop condition body increment span)
  | .function declaration span => by
      have name := movedFunction_name move declaration
      simp only [Stmt.moved, Stmt.resolve, name]
      exact .bind (commutes_declare move declaration.name) fun _ =>
        .bind (commutes_define move declaration.name) fun _ =>
          .bind (commutes_resolveFunction .function declaration) fun declaration =>
            .pure (Stmt.function declaration span)
  | .return value span => by
      have sameSort : (movedOptionalExpr move value).isSome = value.isSome := by
        cases value <;> rfl
      simp only [Stmt.moved, Stmt.resolve, sameSort]
      exact .bind (commutes_checkReturn move value.isSome span) fun _ =>
        .bind (commutes_resolveOptionalExpr value) fun value => .pure (Stmt.return value span)
  | .class name superclass methods span => by
      simp only [Stmt.moved, Stmt.resolve]
      refine .bind .get fun resolver => .bind (Commutes.modify fun _ => rfl) fun _ =>
        .bind (commutes_declare move name) fun _ => .bind (commutes_define move name) fun _ =>
        .bind (commutes_readSuperclass move name superclass) fun superclass =>
        .bind (commutes_openScope move _) fun _ =>
        .bind (commutes_resolveMethods methods) fun methods =>
        .bind (commutes_closeScope move) fun _ => ?_
      cases superclass with
      | none => exact .bind (Commutes.modify fun _ => rfl) fun _ => .pure (Stmt.class name none methods span)
      | some superclass =>
          exact .bind (commutes_closeScope move) fun _ =>
            .bind (Commutes.modify fun _ => rfl) fun _ =>
              .pure (Stmt.class name (some superclass) methods span)
  | .break span => .bind (commutes_checkJump move _ _ span) fun _ => .pure (Stmt.break span)
  | .continue span => .bind (commutes_checkJump move _ _ span) fun _ => .pure (Stmt.continue span)

theorem commutes_resolveOptionalStmt : (stmt : Option Stmt) →
    Commutes move (movedOptionalStmt move) (resolveOptionalStmt (movedOptionalStmt move stmt))
      (resolveOptionalStmt stmt)
  | none => .pure none
  | some stmt => .bind (commutes_resolveStmt stmt) fun stmt => .pure (some stmt)

theorem commutes_resolveStmts : (stmts : List Stmt) →
    Commutes move (movedStmts move) (resolveStmts (movedStmts move stmts)) (resolveStmts stmts)
  | [] => .pure []
  | stmt :: rest =>
      .bind (commutes_resolveStmt stmt) fun stmt =>
        .bind (commutes_resolveStmts rest) fun rest => .pure (stmt :: rest)

theorem commutes_resolveFunction (kind : FunctionKind) : (function : FunctionDeclaration) →
    Commutes move (movedFunction move) (resolveFunction kind (movedFunction move function))
      (resolveFunction kind function)
  | ⟨name, parameters, body, isGetter⟩ =>
      .bind .get fun _ => .bind (Commutes.modify fun _ => rfl) fun _ =>
        .bind (commutes_openScope move []) fun _ =>
          .bind (commutes_declareParameters move parameters) fun _ =>
            .bind (commutes_resolveStmts body) fun body =>
              .bind (commutes_closeScope move) fun _ =>
                .bind (Commutes.modify fun _ => rfl) fun _ =>
                  .pure (⟨name, parameters, body, isGetter⟩ : FunctionDeclaration)

theorem commutes_resolveMethods : (methods : List FunctionDeclaration) →
    Commutes move (movedFunctions move) (resolveMethods (movedFunctions move methods))
      (resolveMethods methods)
  | [] => .pure []
  | method :: rest => by
      have sameKind : methodKind (movedFunction move method) = methodKind method := by
        simp [methodKind]
      simp only [movedFunctions, resolveMethods, sameKind]
      exact .bind (commutes_resolveFunction (methodKind method) method) fun method =>
        .bind (commutes_resolveMethods rest) fun rest => .pure (method :: rest)

end

end Passes

theorem resolveStmts_append (first second : List Stmt) :
    resolveStmts (first ++ second) = do
      let first ← resolveStmts first
      let second ← resolveStmts second
      return first ++ second := by
  induction first with
  | nil => simp [resolveStmts]
  | cons stmt rest inductionHypothesis => simp [resolveStmts, inductionHypothesis]

end Binding

open Binding

namespace Resolver

/-- From a moved resolver the moved program is bound to the moved tree, and complained of at moved
places. -/
theorem moved_resolve (move : Span → Span) (resolver : Resolver) (program : Program) :
    (resolver.moved move).resolve (program.moved move) =
      ⟨(resolver.resolve program).program.moved move,
        (resolver.resolve program).errors.map (BindingError.moved move),
        (resolver.resolve program).resolver⟩ := by
  have bound := commutes_resolveStmts move program.statements resolver
  simp only [resolve, Program.moved, bound]
  rfl

/-- Where nothing is wrong before, it is enough to move the program. -/
theorem resolve_moved (move : Span → Span) {resolver : Resolver} (clean : resolver.errors = [])
    (program : Program) :
    resolver.resolve (program.moved move) =
      ⟨(resolver.resolve program).program.moved move,
        (resolver.resolve program).errors.map (BindingError.moved move),
        (resolver.resolve program).resolver⟩ := by
  have bound := moved_resolve move resolver program
  rwa [moved_of_clean move clean] at bound

/-- Behind a first part without errors, the second is bound as a program of its own. -/
theorem resolve_append {resolver : Resolver} {first : List Stmt}
    (accepted : (resolver.resolve ⟨first⟩).errors = []) (second : List Stmt) :
    resolver.resolve ⟨first ++ second⟩ =
      let later := (resolver.resolve ⟨first⟩).resolver.resolve ⟨second⟩
      ⟨⟨(resolver.resolve ⟨first⟩).program.statements ++ later.program.statements⟩,
        later.errors, later.resolver⟩ := by
  cases bound : (resolveStmts first).run resolver with
  | mk found reached =>
      obtain ⟨scopes, globals, functionKind, classKind, loopDepth, errors⟩ := reached
      obtain rfl : errors = [] := by simpa only [resolve, bound] using accepted
      have both : (resolveStmts (first ++ second)).run resolver =
          let later := (resolveStmts second).run ⟨scopes, globals, functionKind, classKind, loopDepth, []⟩
          (found ++ later.1, later.2) := by
        simp only [resolveStmts_append, StateT.run_bind, bound]
        rfl
      simp only [resolve, both, bound]
      rfl

end Resolver

end Lox
