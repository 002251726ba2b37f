import Lox.Binding.Resolver

/-!
Contract: what a step of the pass over names leaves unchanged.

`Yields pass before found after` says that the step turns one resolver into another
and finds a value. Each combinator has one equivalence for it. Binding an expression
or a function only adds errors (`Quiet`); binding a statement may also declare a name
in the innermost scope (`Steady`). Neither depends on whether the program is right.

Owns: `Yields`, its laws, `Quiet` and `Steady`. Does not own: what the addresses are.
-/

set_option autoImplicit false

namespace Lox.Binding

variable {α β : Type}

/-- The step finds `found` and turns the resolver `before` into `after`. -/
def Yields (pass : Pass α) (before : Resolver) (found : α) (after : Resolver) : Prop :=
  pass.run before = (found, after)

theorem Yields.unique {pass : Pass α} {before after after' : Resolver} {found found' : α}
    (first : Yields pass before found after) (second : Yields pass before found' after') :
    found = found' ∧ after = after' :=
  Prod.mk.inj (first.symm.trans second)

theorem yields_run (pass : Pass α) (before : Resolver) :
    Yields pass before (pass.run before).1 (pass.run before).2 := rfl

@[simp] theorem yields_pure {value found : α} {before after : Resolver} :
    Yields (pure value) before found after ↔ value = found ∧ before = after :=
  Prod.mk.injEq ..  ▸ Iff.rfl

@[simp] theorem yields_bind {first : Pass α} {next : α → Pass β} {before after : Resolver}
    {found : β} :
    Yields (first >>= next) before found after ↔
      ∃ value middle, Yields first before value middle ∧
        Yields (next value) middle found after := by
  constructor
  · intro yields
    exact ⟨_, _, yields_run first before, yields⟩
  · intro parts
    obtain ⟨value, middle, yieldsFirst, yieldsNext⟩ := parts
    have same : (first >>= next).run before =
        (next (first.run before).1).run (first.run before).2 := rfl
    unfold Yields at yieldsFirst yieldsNext ⊢
    rw [same, yieldsFirst, yieldsNext]

@[simp] theorem yields_get {before found after : Resolver} :
    Yields get before found after ↔ before = found ∧ before = after :=
  Prod.mk.injEq .. ▸ Iff.rfl

@[simp] theorem yields_set {next before after : Resolver} {found : PUnit} :
    Yields (set next) before found after ↔ next = after := by
  constructor
  · intro yields
    exact (Prod.mk.inj yields).2
  · intro same
    exact congrArg (Prod.mk PUnit.unit) same

@[simp] theorem yields_modify {change : Resolver → Resolver} {before after : Resolver}
    {found : PUnit} :
    Yields (modify change) before found after ↔ change before = after := by
  constructor
  · intro yields
    exact (Prod.mk.inj yields).2
  · intro same
    exact congrArg (Prod.mk PUnit.unit) same

/-! ## Primitive steps -/

@[simp] theorem yields_report {cause : BindingError.Cause} {lexeme : String} {span : Span}
    {before after : Resolver} {found : Unit} :
    Yields (report cause lexeme span) before found after ↔
      { before with errors := before.errors ++ [⟨cause, lexeme, span⟩] } = after := by
  simp [report]

@[simp] theorem yields_reportIf {broken : Bool} {cause : BindingError.Cause} {lexeme : String}
    {span : Span} {before after : Resolver} {found : Unit} :
    Yields (reportIf broken cause lexeme span) before found after ↔
      { before with
        errors := before.errors ++ if broken then [⟨cause, lexeme, span⟩] else [] } = after := by
  cases broken <;> simp [reportIf]

@[simp] theorem yields_openScope {scope : Scope} {before after : Resolver} {found : Unit} :
    Yields (openScope scope) before found after ↔
      { before with scopes := scope :: before.scopes } = after := by
  simp [openScope]

@[simp] theorem yields_closeScope {before after : Resolver} {found : Unit} :
    Yields closeScope before found after ↔
      { before with scopes := before.scopes.tail } = after := by
  simp [closeScope]

@[simp] theorem yields_lookUp {name : String} {old : Option Address} {before after : Resolver}
    {found : Option Address} :
    Yields (lookUp name old) before found after ↔
      (address? name before.scopes).or old = found ∧ before = after := by
  simp only [lookUp, yields_bind, yields_get, yields_pure]
  constructor
  · intro yields
    obtain ⟨_, _, ⟨rfl, rfl⟩, same, rfl⟩ := yields
    exact ⟨same, rfl⟩
  · intro yields
    obtain ⟨same, rfl⟩ := yields
    exact ⟨before, before, ⟨rfl, rfl⟩, same, rfl⟩

/-! ## Quiet steps -/

/-- Nothing changed but that errors were added. -/
def Quiet (before after : Resolver) : Prop :=
  ∃ more, after = { before with errors := before.errors ++ more }

theorem Quiet.refl (resolver : Resolver) : Quiet resolver resolver := ⟨[], by simp⟩

theorem Quiet.trans {first second third : Resolver} (one : Quiet first second)
    (two : Quiet second third) : Quiet first third := by
  obtain ⟨more, rfl⟩ := one
  obtain ⟨others, rfl⟩ := two
  exact ⟨more ++ others, by simp⟩

/-- A name may have been declared in the innermost scope, or globally where there is
none, and errors may have been added. -/
structure Steady (before after : Resolver) : Prop where
  outer : after.scopes.tail = before.scopes.tail
  top : after.scopes = [] ↔ before.scopes = []
  globals : before.scopes ≠ [] → after.globals = before.globals
  functionKind : after.functionKind = before.functionKind
  classKind : after.classKind = before.classKind
  loopDepth : after.loopDepth = before.loopDepth
  errors : before.errors <+: after.errors

theorem Quiet.steady {before after : Resolver} (quiet : Quiet before after) :
    Steady before after := by
  obtain ⟨more, rfl⟩ := quiet
  exact ⟨rfl, Iff.rfl, fun _ => rfl, rfl, rfl, rfl, List.prefix_append _ _⟩

theorem Steady.trans {first second third : Resolver} (one : Steady first second)
    (two : Steady second third) : Steady first third where
  outer := two.outer.trans one.outer
  top := two.top.trans one.top
  globals inside := (two.globals (mt one.top.mp inside)).trans (one.globals inside)
  functionKind := two.functionKind.trans one.functionKind
  classKind := two.classKind.trans one.classKind
  loopDepth := two.loopDepth.trans one.loopDepth
  errors := one.errors.trans two.errors

/-- The step is quiet from every resolver on. -/
def Quietly (pass : Pass α) : Prop :=
  ∀ ⦃before after : Resolver⦄ ⦃found : α⦄, Yields pass before found after → Quiet before after

/-- The step is steady from every resolver on. -/
def Steadily (pass : Pass α) : Prop :=
  ∀ ⦃before after : Resolver⦄ ⦃found : α⦄, Yields pass before found after → Steady before after

theorem Quietly.pure (value : α) : Quietly (Pure.pure value) := by
  intro before after found yields
  obtain ⟨_, rfl⟩ := yields_pure.mp yields
  exact Quiet.refl _

theorem Quietly.bind {first : Pass α} {next : α → Pass β} (quietFirst : Quietly first)
    (quietNext : ∀ value, Quietly (next value)) : Quietly (first >>= next) := by
  intro before after found yields
  obtain ⟨value, middle, yieldsFirst, yieldsNext⟩ := yields_bind.mp yields
  exact (quietFirst yieldsFirst).trans (quietNext value yieldsNext)

theorem Quietly.steadily {pass : Pass α} (quiet : Quietly pass) : Steadily pass :=
  fun _ _ _ yields => (quiet yields).steady

theorem Steadily.bind {first : Pass α} {next : α → Pass β} (steadyFirst : Steadily first)
    (steadyNext : ∀ value, Steadily (next value)) : Steadily (first >>= next) := by
  intro before after found yields
  obtain ⟨value, middle, yieldsFirst, yieldsNext⟩ := yields_bind.mp yields
  exact (steadyFirst yieldsFirst).trans (steadyNext value yieldsNext)

/-- What happens in a scope of its own only adds errors. -/
theorem Steady.closed (before : Resolver) {inside after : Resolver} (steady : Steady inside after)
    (errors : inside.errors = before.errors) (globals : inside.globals = before.globals)
    {scope : Scope} (opened : inside.scopes = scope :: before.scopes)
    (classKind : inside.classKind = before.classKind) :
    Quiet before
      { after with
        scopes := after.scopes.tail
        functionKind := before.functionKind
        loopDepth := before.loopDepth } := by
  obtain ⟨more, extended⟩ := steady.errors
  refine ⟨more, ?_⟩
  rw [steady.globals (by simp [opened]), steady.outer, steady.classKind, ← extended, globals,
    errors, opened, classKind]
  rfl

theorem Steady.closeBlock {before inside : Resolver}
    (steady : Steady { before with scopes := [] :: before.scopes } inside) :
    Quiet before { inside with scopes := inside.scopes.tail } := by
  have closed := steady.closed before rfl rfl rfl rfl
  rw [← steady.functionKind, ← steady.loopDepth] at closed
  exact closed

/-! ## Names -/

theorem steady_declare (name : Name) : Steadily (declare name) := by
  intro before after found yields
  simp only [declare, yields_bind, yields_get] at yields
  obtain ⟨_, _, ⟨rfl, rfl⟩, yields⟩ := yields
  split at yields
  · next top =>
      rw [yields_set] at yields
      subst yields
      exact ⟨rfl, Iff.rfl, fun inside => absurd top inside, rfl, rfl, rfl, List.prefix_rfl⟩
  · next scope outer inside =>
      split at yields
      · rw [yields_report] at yields
        subst yields
        exact ⟨rfl, Iff.rfl, fun _ => rfl, rfl, rfl, rfl, List.prefix_append _ _⟩
      · rw [yields_set] at yields
        subst yields
        exact ⟨by simp [inside], by simp [inside], fun _ => rfl, rfl, rfl, rfl, List.prefix_rfl⟩

theorem steady_define (name : Name) : Steadily (define name) := by
  intro before after found yields
  simp only [define, yields_modify] at yields
  split at yields
  · next top =>
      subst yields
      exact ⟨rfl, Iff.rfl, fun inside => absurd top inside, rfl, rfl, rfl, List.prefix_rfl⟩
  · next scope outer inside =>
      subst yields
      exact ⟨by simp [inside], by simp [inside], fun _ => rfl, rfl, rfl, rfl, List.prefix_rfl⟩

theorem steady_declareParameters (parameters : List Name) :
    Steadily (declareParameters parameters) := by
  induction parameters with
  | nil => exact (Quietly.pure ()).steadily
  | cons parameter rest inductionHypothesis =>
      exact (steady_declare parameter).bind fun _ =>
        (steady_define parameter).bind fun _ => inductionHypothesis

theorem quiet_readVariable (reference : Reference) : Quietly (readVariable reference) := by
  intro before after found yields
  simp only [readVariable, yields_bind, yields_get, yields_reportIf, yields_lookUp,
    yields_pure] at yields
  obtain ⟨_, _, ⟨rfl, rfl⟩, _, _, rfl, _, _, ⟨_, rfl⟩, _, rfl⟩ := yields
  exact ⟨_, rfl⟩

theorem quiet_lookUp (name : String) (old : Option Address) : Quietly (lookUp name old) := by
  intro before after found yields
  obtain ⟨_, rfl⟩ := yields_lookUp.mp yields
  exact Quiet.refl _

theorem quiet_report (cause : BindingError.Cause) (lexeme : String) (span : Span) :
    Quietly (report cause lexeme span) := by
  intro before after found yields
  exact ⟨_, (yields_report.mp yields).symm⟩

theorem quiet_reportIf (broken : Bool) (cause : BindingError.Cause) (lexeme : String)
    (span : Span) : Quietly (reportIf broken cause lexeme span) := by
  intro before after found yields
  exact ⟨_, (yields_reportIf.mp yields).symm⟩

theorem quiet_get : Quietly (get : Pass Resolver) := by
  intro before after found yields
  obtain ⟨_, rfl⟩ := yields_get.mp yields
  exact Quiet.refl _

theorem quiet_readThis (address : Option Address) (span : Span) :
    Quietly (readThis address span) := by
  refine quiet_get.bind fun resolver => ?_
  split
  · exact (quiet_report _ _ _).bind fun _ => .pure _
  · exact quiet_lookUp _ _

theorem quiet_readSuper (address : Option Address) (span : Span) :
    Quietly (readSuper address span) := by
  refine quiet_get.bind fun resolver => ?_
  split
  · exact (quiet_report _ _ _).bind fun _ => quiet_lookUp _ _
  · exact (quiet_report _ _ _).bind fun _ => quiet_lookUp _ _
  · exact quiet_lookUp _ _

theorem quiet_checkReturn (hasValue : Bool) (span : Span) :
    Quietly (checkReturn hasValue span) :=
  quiet_get.bind fun _ => (quiet_reportIf _ _ _ _).bind fun _ => quiet_reportIf _ _ _ _

theorem quiet_checkJump (cause : BindingError.Cause) (lexeme : String) (span : Span) :
    Quietly (checkJump cause lexeme span) :=
  quiet_get.bind fun _ => quiet_reportIf _ _ _ _

/-- Reading the superclass of a class opens the scope of `super` if there is one. -/
theorem readSuperclass_spec {className : Name} {superclass found : Option Reference}
    {before after : Resolver}
    (yields : Yields (readSuperclass className superclass) before found after) :
    (superclass = none ∧ found = none ∧ after = before) ∨
      ∃ reference bound first others, superclass = some reference ∧ found = some bound ∧
        Yields (readVariable reference)
          { before with classKind := .subclass, errors := before.errors ++ first } bound
          { before with classKind := .subclass, errors := before.errors ++ others } ∧
        after = { before with
          scopes := Scope.implicit "super" :: before.scopes
          classKind := .subclass
          errors := before.errors ++ others } := by
  cases superclass with
  | none =>
      obtain ⟨rfl, rfl⟩ := yields_pure.mp yields
      exact .inl ⟨rfl, rfl, rfl⟩
  | some reference =>
      simp only [readSuperclass, yields_bind, yields_reportIf, yields_modify, yields_openScope,
        yields_pure] at yields
      obtain ⟨_, _, rfl, _, _, rfl, bound, read, yieldsRead, _, _, rfl, rfl, rfl⟩ := yields
      obtain ⟨more, rfl⟩ := quiet_readVariable reference yieldsRead
      rw [List.append_assoc] at yieldsRead
      exact .inr ⟨reference, bound, _, _, rfl, rfl, yieldsRead, by simp⟩

/-- The stages of binding a class. -/
structure ClassStages (name : Name) (superclass : Option Reference)
    (methods : List FunctionDeclaration) (before : Resolver) (boundSuperclass : Option Reference)
    (boundMethods : List FunctionDeclaration) (after : Resolver) where
  announced : Resolver
  inherited : Resolver
  done : Resolver
  declares : Yields (do declare name; define name) { before with classKind := .base } () announced
  inherits : Yields (readSuperclass name superclass) announced boundSuperclass inherited
  binds : Yields (resolveMethods methods)
    { inherited with scopes := Scope.implicit "this" :: inherited.scopes } boundMethods done
  restores : after =
    { done with
      scopes := if boundSuperclass.isSome then done.scopes.tail.tail else done.scopes.tail
      classKind := before.classKind }

theorem yields_class {name : Name} {superclass : Option Reference}
    {methods : List FunctionDeclaration} {span : Span} {before after : Resolver} {found : Stmt}
    (yields : Yields (Stmt.resolve (.class name superclass methods span)) before found after) :
    ∃ boundSuperclass boundMethods, found = .class name boundSuperclass boundMethods span ∧
      Nonempty (ClassStages name superclass methods before boundSuperclass boundMethods after) := by
  simp only [Stmt.resolve, yields_bind, yields_get, yields_modify, yields_openScope,
    yields_closeScope] at yields
  obtain ⟨_, _, ⟨rfl, rfl⟩, _, _, rfl, _, declared, declares, _, announced, defines,
    boundSuperclass, inherited, inherits, _, _, rfl, boundMethods, done, binds, _, _, rfl,
    yields⟩ := yields
  have names : Yields (do declare name; define name) { before with classKind := .base } ()
      announced := yields_bind.mpr ⟨_, _, declares, defines⟩
  split at yields
  · next present =>
      simp only [yields_bind, yields_closeScope, yields_modify, yields_pure] at yields
      obtain ⟨_, _, rfl, _, _, rfl, rfl, rfl⟩ := yields
      exact ⟨_, _, rfl, ⟨announced, inherited, done, names, inherits, binds, by simp [present]⟩⟩
  · next absent =>
      simp only [yields_bind, yields_modify, yields_pure] at yields
      obtain ⟨_, _, rfl, rfl, rfl⟩ := yields
      exact ⟨_, _, rfl, ⟨announced, inherited, done, names, inherits, binds, by simp [absent]⟩⟩

/-! ## Trees -/

mutual

theorem quiet_resolve : (expr : Expr) → Quietly expr.resolve
  | .literal _ _ => .pure _
  | .grouping inner _ => (quiet_resolve inner).bind fun _ => .pure _
  | .variable reference => (quiet_readVariable reference).bind fun _ => .pure _
  | .assign _ value _ =>
      (quiet_resolve value).bind fun _ => (quiet_lookUp _ _).bind fun _ => .pure _
  | .unary _ operand _ => (quiet_resolve operand).bind fun _ => .pure _
  | .binary _ left right _ =>
      (quiet_resolve left).bind fun _ => (quiet_resolve right).bind fun _ => .pure _
  | .logical _ left right _ =>
      (quiet_resolve left).bind fun _ => (quiet_resolve right).bind fun _ => .pure _
  | .call callee arguments _ =>
      (quiet_resolve callee).bind fun _ => (quiet_resolveExprs arguments).bind fun _ => .pure _
  | .get object _ => (quiet_resolve object).bind fun _ => .pure _
  | .set object _ value _ =>
      (quiet_resolve value).bind fun _ => (quiet_resolve object).bind fun _ => .pure _
  | .this address span => (quiet_readThis address span).bind fun _ => .pure _
  | .super address _ span => (quiet_readSuper address span).bind fun _ => .pure _
  | .lambda function => (quiet_resolveFunction .function function).bind fun _ => .pure _

theorem quiet_resolveExprs : (exprs : List Expr) → Quietly (resolveExprs exprs)
  | [] => .pure _
  | expr :: rest =>
      (quiet_resolve expr).bind fun _ => (quiet_resolveExprs rest).bind fun _ => .pure _

theorem quiet_resolveOptionalExpr : (expr : Option Expr) → Quietly (resolveOptionalExpr expr)
  | none => .pure _
  | some expr => (quiet_resolve expr).bind fun _ => .pure _

theorem steady_resolve : (stmt : Stmt) → Steadily stmt.resolve
  | .expression value _ => ((quiet_resolve value).bind fun _ => .pure _).steadily
  | .print value _ => ((quiet_resolve value).bind fun _ => .pure _).steadily
  | .var name initializer _ =>
      (steady_declare name).bind fun _ =>
        (quiet_resolveOptionalExpr initializer).steadily.bind fun _ =>
          (steady_define name).bind fun _ => (Quietly.pure _).steadily
  | .block statements _ => by
      intro before after found yields
      simp only [Stmt.resolve, yields_bind, yields_openScope, yields_closeScope,
        yields_pure] at yields
      obtain ⟨_, _, rfl, _, _, yieldsBody, _, _, rfl, _, rfl⟩ := yields
      exact (steady_resolveStmts statements yieldsBody).closeBlock.steady
  | .conditional condition thenBranch elseBranch _ =>
      (quiet_resolve condition).steadily.bind fun _ =>
        (steady_resolve thenBranch).bind fun _ =>
          (steady_resolveOptionalStmt elseBranch).bind fun _ => (Quietly.pure _).steadily
  | .loop condition body increment _ => by
      intro before after found yields
      simp only [Stmt.resolve, yields_bind, yields_modify, yields_pure] at yields
      obtain ⟨_, tested, yieldsCondition, _, _, rfl, _, reached, yieldsBody, _, _, rfl, _, _,
        yieldsIncrement, _, rfl⟩ := yields
      have steadyBody := steady_resolve body yieldsBody
      have round : Steady tested { reached with loopDepth := reached.loopDepth - 1 } :=
        ⟨steadyBody.outer, steadyBody.top, steadyBody.globals, steadyBody.functionKind,
          steadyBody.classKind, by simp [steadyBody.loopDepth], steadyBody.errors⟩
      exact ((quiet_resolve condition yieldsCondition).steady.trans round).trans
        (quiet_resolveOptionalExpr increment yieldsIncrement).steady
  | .function declaration _ =>
      (steady_declare _).bind fun _ => (steady_define _).bind fun _ =>
        (quiet_resolveFunction .function declaration).steadily.bind fun _ =>
          (Quietly.pure _).steadily
  | .return value span =>
      ((quiet_checkReturn value.isSome span).bind fun _ =>
        (quiet_resolveOptionalExpr value).bind fun _ => .pure _).steadily
  | .class name superclass methods _ => by
      intro before after found yields
      obtain ⟨_, _, _, ⟨announced, inherited, done, declares, inherits, binds, rfl⟩⟩ :=
        yields_class yields
      have named := (steady_declare name).bind (fun _ => steady_define name) declares
      have closed : Steady before { announced with classKind := before.classKind } :=
        ⟨named.outer, named.top, named.globals, named.functionKind, rfl, named.loopDepth,
          named.errors⟩
      obtain ⟨more, rfl⟩ := quiet_resolveMethods methods binds
      refine closed.trans (Quiet.steady ?_)
      obtain ⟨_, rfl, rfl⟩ | ⟨_, _, _, others, _, rfl, _, rfl⟩ := readSuperclass_spec inherits
      · exact ⟨more, rfl⟩
      · exact ⟨others ++ more, by simp⟩
  | .break span => ((quiet_checkJump _ _ span).bind fun _ => .pure _).steadily
  | .continue span => ((quiet_checkJump _ _ span).bind fun _ => .pure _).steadily

theorem steady_resolveOptionalStmt : (stmt : Option Stmt) → Steadily (resolveOptionalStmt stmt)
  | none => (Quietly.pure _).steadily
  | some stmt => (steady_resolve stmt).bind fun _ => (Quietly.pure _).steadily

theorem steady_resolveStmts : (stmts : List Stmt) → Steadily (resolveStmts stmts)
  | [] => (Quietly.pure _).steadily
  | stmt :: rest =>
      (steady_resolve stmt).bind fun _ =>
        (steady_resolveStmts rest).bind fun _ => (Quietly.pure _).steadily

theorem quiet_resolveFunction (kind : FunctionKind) :
    (function : FunctionDeclaration) → Quietly (resolveFunction kind function)
  | ⟨name, parameters, body, isGetter⟩ => by
      intro before after found yields
      simp only [resolveFunction, yields_bind, yields_get, yields_modify, yields_openScope,
        yields_closeScope, yields_pure] at yields
      obtain ⟨_, _, ⟨rfl, rfl⟩, _, _, rfl, _, _, rfl, _, _, declares, _, _, yieldsBody, _, _, rfl,
        _, _, rfl, _, rfl⟩ := yields
      have steady :=
        (steady_declareParameters parameters declares).trans (steady_resolveStmts body yieldsBody)
      exact steady.closed before rfl rfl rfl rfl

theorem quiet_resolveMethods : (methods : List FunctionDeclaration) →
    Quietly (resolveMethods methods)
  | [] => .pure _
  | method :: rest =>
      (quiet_resolveFunction (methodKind method) method).bind fun _ =>
        (quiet_resolveMethods rest).bind fun _ => .pure _

end

/-- The resolver is between two programs. -/
structure AtTop (resolver : Resolver) : Prop where
  scopes : resolver.scopes = []
  functionKind : resolver.functionKind = .none
  classKind : resolver.classKind = .none
  loopDepth : resolver.loopDepth = 0
  errors : resolver.errors = []

theorem atTop_withGlobals (globals : Table Bool) : AtTop (Resolver.withGlobals globals) :=
  ⟨rfl, rfl, rfl, rfl, rfl⟩

theorem AtTop.defineGlobal {resolver : Resolver} (atTop : AtTop resolver) (name : String) :
    AtTop (resolver.defineGlobal name) :=
  ⟨atTop.scopes, atTop.functionKind, atTop.classKind, atTop.loopDepth, atTop.errors⟩

theorem atTop_foldl_defineGlobal (names : List String) {resolver : Resolver}
    (atTop : AtTop resolver) : AtTop (names.foldl Resolver.defineGlobal resolver) := by
  induction names generalizing resolver with
  | nil => exact atTop
  | cons name rest inductionHypothesis => exact inductionHypothesis (atTop.defineGlobal name)

theorem resolve_of_yields {resolver after : Resolver} {program : Program} {found : List Stmt}
    (yields : Yields (resolveStmts program.statements) resolver found after) :
    resolver.resolve program = ⟨⟨found⟩, after.errors, { after with errors := [] }⟩ := by
  simp only [Resolver.resolve]
  rw [show (resolveStmts program.statements).run resolver = (found, after) from yields]

theorem yields_resolve (resolver : Resolver) (program : Program) :
    ∃ after, Yields (resolveStmts program.statements) resolver
      (resolver.resolve program).program.statements after ∧
      (resolver.resolve program).errors = after.errors ∧
      (resolver.resolve program).resolver = { after with errors := [] } :=
  ⟨_, yields_run _ _, rfl, rfl⟩

/-- Behind a program, right or wrong, all is as before it but for the globals. -/
theorem AtTop.resolve {resolver : Resolver} (atTop : AtTop resolver) (program : Program) :
    AtTop (resolver.resolve program).resolver := by
  obtain ⟨after, yields, _, same⟩ := yields_resolve resolver program
  have steady := steady_resolveStmts program.statements yields
  rw [same]
  exact ⟨steady.top.mpr atTop.scopes, steady.functionKind.trans atTop.functionKind,
    steady.classKind.trans atTop.classKind, steady.loopDepth.trans atTop.loopDepth, rfl⟩

end Lox.Binding
