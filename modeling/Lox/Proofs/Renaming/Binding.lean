import Lox.Proofs.Renaming.Scopes

/-!
Contract: binding of a program in which a local variable has another name.

The pass goes over the renamed tree as it went over the tree. In scopes where the variable has its
fresh name, each part is accepted again and gets the same addresses, provided that the fresh name
is spelled like no reserved word and is the name of no variable of the program.

Expressions and functions leave the scopes as they are; a statement declares at most one name, and
the marks behind it fit the scopes behind it. For each statement this is shown from its parts; the
induction follows the tree.

Main statement: `AtTop.resolve_renamed`.

Owns: the pass over renamed trees. Does not own: running.
-/

set_option autoImplicit false

namespace Lox.Binding

variable {naming : Renaming}

/-! ## Renamable parts -/

section Renamable

variable {Tree Other : Type}

/-- Where the pass goes over the part without an error, it goes over the renamed part likewise, in
renamed scopes. -/
def Renamable (naming : Renaming) (pass : Tree → Pass Tree) (renamed : Marks → Tree → Tree)
    (cleared : Tree → Tree) (part : Tree) : Prop :=
  ∀ ⦃marks : Marks⦄ ⦃before after : Resolver⦄ ⦃found : Tree⦄,
    Yields (pass part) before found after → after.errors = [] → Fits naming marks before.scopes →
      Yields (pass (cleared (renamed marks found))) (before.renamed naming marks)
        (renamed marks found) (after.renamed naming marks)

/-- The same of a part that may declare names: the marks behind it fit the scopes behind it. -/
def RenamableThrough (naming : Renaming) (pass : Tree → Pass Tree) (renamed : Marks → Tree → Tree)
    (cleared : Tree → Tree) (marksAfter : Marks → Tree → Marks) (part : Tree) : Prop :=
  ∀ ⦃marks : Marks⦄ ⦃before after : Resolver⦄ ⦃found : Tree⦄,
    Yields (pass part) before found after → after.errors = [] → Fits naming marks before.scopes →
      Yields (pass (cleared (renamed marks found))) (before.renamed naming marks)
          (renamed marks found) (after.renamed naming (marksAfter marks found)) ∧
        Fits naming (marksAfter marks found) after.scopes

/-- Of two quiet parts one after the other both are gone over likewise: that there are no errors goes
back from the second to the first, and the scopes go on from the first to the second. -/
theorem Renamable.both {pass : Tree → Pass Tree} {renamed : Marks → Tree → Tree}
    {cleared : Tree → Tree} {part : Tree} {pass' : Other → Pass Other}
    {renamed' : Marks → Other → Other} {cleared' : Other → Other} {other : Other}
    (first : Renamable naming pass renamed cleared part)
    (second : Renamable naming pass' renamed' cleared' other) (quietFirst : Quietly (pass part))
    (quietSecond : Quietly (pass' other)) {marks : Marks} {before middle after : Resolver}
    {found : Tree} {found' : Other} (yieldsFirst : Yields (pass part) before found middle)
    (yieldsSecond : Yields (pass' other) middle found' after) (accepted : after.errors = [])
    (fits : Fits naming marks before.scopes) :
    Yields (pass (cleared (renamed marks found))) (before.renamed naming marks)
        (renamed marks found) (middle.renamed naming marks) ∧
      Yields (pass' (cleared' (renamed' marks found'))) (middle.renamed naming marks)
        (renamed' marks found') (after.renamed naming marks) := by
  have firstThere := first yieldsFirst ((quietSecond yieldsSecond).accepted accepted) fits
  obtain ⟨_, rfl⟩ := quietFirst yieldsFirst
  exact ⟨firstThere, second yieldsSecond accepted fits⟩

end Renamable

/-- The expression is renamable. -/
abbrev RenamableExpr (naming : Renaming) : Expr → Prop :=
  Renamable naming Expr.resolve (Expr.renamed naming) Expr.cleared

/-- The expression, if there is one, is renamable. -/
abbrev RenamableOptionalExpr (naming : Renaming) : Option Expr → Prop :=
  Renamable naming resolveOptionalExpr (renamedOptionalExpr naming) clearedOptionalExpr

/-- The function is renamable. -/
abbrev RenamableFunction (naming : Renaming) (kind : FunctionKind) : FunctionDeclaration → Prop :=
  Renamable naming (resolveFunction kind) (renamedFunction naming) clearedFunction

/-- The statement is renamable, and may declare a name. -/
abbrev RenamableStmt (naming : Renaming) : Stmt → Prop :=
  RenamableThrough naming Stmt.resolve (Stmt.renamed naming) Stmt.cleared
    (Stmt.marksAfter naming)

/-- The statement is renamable, and declares nothing. -/
abbrev RenamableUndeclaring (naming : Renaming) : Stmt → Prop :=
  RenamableThrough naming Stmt.resolve (Stmt.renamed naming) Stmt.cleared fun marks _ => marks

/-- The statements are renamable, and may declare names. -/
abbrev RenamableStmts (naming : Renaming) : List Stmt → Prop :=
  RenamableThrough naming resolveStmts (renamedStmts naming) clearedStmts (marksAfterStmts naming)

/-- The branch, if there is one, is renamable, and declares nothing. -/
abbrev RenamableBranch (naming : Renaming) : Option Stmt → Prop :=
  RenamableThrough naming resolveOptionalStmt (renamedOptionalStmt naming) clearedOptionalStmt
    fun marks _ => marks

/-! ## Parts of trees -/

theorem declared?_resolve {stmt found : Stmt} {before after : Resolver}
    (yields : Yields stmt.resolve before found after) (unbound : stmt.Unbound) :
    found.declared? = stmt.declared? := by
  rw [← declared?_cleared, clearedStmt_resolve stmt yields unbound]

theorem methodKind_renamed (marks : Marks) (method : FunctionDeclaration) :
    methodKind (clearedFunction (renamedFunction naming marks method)) = methodKind method := by
  cases method
  rfl

theorem methodKind_resolve {kind : FunctionKind} {function found : FunctionDeclaration}
    {before after : Resolver} (yields : Yields (resolveFunction kind function) before found after)
    (unbound : unboundFunction function) : methodKind found = methodKind function := by
  have same := cleared_resolveFunction kind function yields unbound
  rw [← same]
  cases found
  rfl

/-- Whether there is a function or a loop around does not depend on names. -/
theorem checkReturn_renamed (naming : Renaming) (marks : Marks) {hasValue : Bool} {span : Span}
    {found : Unit} {before after : Resolver}
    (yields : Yields (checkReturn hasValue span) before found after) :
    Yields (checkReturn hasValue span) (before.renamed naming marks) found
      (after.renamed naming marks) := by
  simp only [checkReturn, yields_bind, yields_get, yields_reportIf] at yields ⊢
  obtain ⟨_, _, ⟨rfl, rfl⟩, _, _, rfl, rfl⟩ := yields
  exact ⟨_, _, ⟨rfl, rfl⟩, (), _, rfl, rfl⟩

theorem checkJump_renamed (naming : Renaming) (marks : Marks) {cause : BindingError.Cause}
    {lexeme : String} {span : Span} {found : Unit} {before after : Resolver}
    (yields : Yields (checkJump cause lexeme span) before found after) :
    Yields (checkJump cause lexeme span) (before.renamed naming marks) found
      (after.renamed naming marks) := by
  simp only [checkJump, yields_bind, yields_get, yields_reportIf] at yields ⊢
  obtain ⟨_, _, ⟨rfl, rfl⟩, rfl⟩ := yields
  exact ⟨_, _, ⟨rfl, rfl⟩, rfl⟩

/-- The stages of binding a class make up its binding. -/
theorem ClassStages.yields {name : Name} {superclass boundSuperclass : Option Reference}
    {methods boundMethods : List FunctionDeclaration} {before after : Resolver}
    (stages : ClassStages name superclass methods before boundSuperclass boundMethods after)
    (span : Span) :
    Yields (Stmt.resolve (.class name superclass methods span)) before
      (.class name boundSuperclass boundMethods span) after := by
  obtain ⟨announced, inherited, done, declares, inherits, binds, rfl⟩ := stages
  obtain ⟨_, _, names, defines⟩ := yields_bind.mp declares
  simp only [Stmt.resolve, yields_bind, yields_get, yields_modify, yields_openScope,
    yields_closeScope]
  refine ⟨_, _, ⟨rfl, rfl⟩, (), _, rfl, _, _, names, _, _, defines, _, _, inherits, (), _, rfl,
    _, _, binds, (), _, rfl, ?_⟩
  cases boundSuperclass with
  | none =>
      simp only [Option.isSome_none, Bool.false_eq_true, if_false, yields_bind, yields_modify,
        yields_pure, true_and]
      exact ⟨(), _, rfl, rfl⟩
  | some reference =>
      simp only [Option.isSome_some, if_true, yields_bind, yields_modify, yields_closeScope,
        yields_pure, true_and]
      exact ⟨(), _, rfl, (), _, rfl, rfl⟩

/-! ## Statements -/

/-- Behind a statement that declares nothing the marks are as before it. -/
theorem RenamableThrough.undeclaring {stmt : Stmt} (here : RenamableStmt naming stmt)
    (unbound : stmt.Unbound) (undeclaring : stmt.declared? = none) :
    RenamableUndeclaring naming stmt := by
  intro marks before after found yields accepted fits
  have there := here yields accepted fits
  have noName := (declared?_resolve yields unbound).trans undeclaring
  simp only [Stmt.marksAfter_of_declared?_eq_none naming marks noName] at there
  exact there

theorem resolveVar_renamed {name : Name} {initializer : Option Expr} (span : Span)
    (plain : Plain name.text) (lacks : name.text ≠ naming.fresh)
    (initializerRenamable : RenamableOptionalExpr naming initializer) :
    RenamableStmt naming (.var name initializer span) := by
  intro marks before after found yields accepted fits
  simp only [Stmt.resolve, yields_bind, yields_pure] at yields
  obtain ⟨_, declared, declares, bound, _, yieldsInitializer, _, _, defines, rfl, rfl⟩ := yields
  have acceptedDefine := (steady_define name defines).accepted accepted
  have quiet := quiet_resolveOptionalExpr initializer yieldsInitializer
  obtain ⟨declaresThere, fitsDeclared, hit⟩ := declare_renamed declares
    (quiet.accepted acceptedDefine) fits lacks fun marked =>
      ⟨naming.text_of_hits marked, naming.text_of_hits marked ▸ plain⟩
  have initializerThere := initializerRenamable yieldsInitializer acceptedDefine fitsDeclared
  obtain ⟨_, rfl⟩ := quiet
  obtain ⟨definesThere, fitsDefined⟩ := define_renamed defines fitsDeclared lacks
  simp only [hit] at definesThere
  simp only [Stmt.renamed, Stmt.cleared, Stmt.resolve, yields_bind, yields_pure]
  exact ⟨⟨_, _, declaresThere, _, _, initializerThere, _, _, definesThere, rfl, rfl⟩,
    fitsDefined⟩

theorem resolveBlock_renamed {statements : List Stmt} (span : Span)
    (bodyRenamable : RenamableStmts naming statements) :
    RenamableStmt naming (.block statements span) := by
  intro marks before after found yields accepted fits
  simp only [Stmt.resolve, yields_bind, yields_openScope, yields_closeScope, yields_pure] at yields
  obtain ⟨_, _, rfl, bound, inside, yieldsBody, _, _, rfl, rfl, rfl⟩ := yields
  obtain ⟨bodyThere, fitsInside⟩ := bodyRenamable yieldsBody accepted fits.opened
  obtain ⟨fitsAfter, closed⟩ := Fits.closed bound fitsInside
  simp only [Stmt.renamed, Stmt.cleared, Stmt.resolve, yields_bind, yields_openScope,
    yields_closeScope, yields_pure]
  refine ⟨⟨(), _, rfl, _, _, bodyThere, (), _, rfl, rfl, ?_⟩, fitsAfter⟩
  exact congrArg (fun scopes => { inside with scopes := scopes }) closed

theorem resolveConditional_renamed {condition : Expr} {thenBranch : Stmt}
    {elseBranch : Option Stmt} (span : Span) (conditionRenamable : RenamableExpr naming condition)
    (thenRenamable : RenamableUndeclaring naming thenBranch)
    (elseRenamable : RenamableBranch naming elseBranch) :
    RenamableStmt naming (.conditional condition thenBranch elseBranch span) := by
  intro marks before after found yields accepted fits
  simp only [Stmt.resolve, yields_bind, yields_pure] at yields
  obtain ⟨_, _, yieldsCondition, _, chosen, yieldsThen, _, _, yieldsElse, rfl, rfl⟩ := yields
  have acceptedThen := (steady_resolveOptionalStmt elseBranch yieldsElse).accepted accepted
  have acceptedCondition := (steady_resolve thenBranch yieldsThen).accepted acceptedThen
  have conditionThere := conditionRenamable yieldsCondition acceptedCondition fits
  obtain ⟨_, rfl⟩ := quiet_resolve condition yieldsCondition
  obtain ⟨thenThere, fitsThen⟩ := thenRenamable yieldsThen acceptedThen fits
  obtain ⟨elseThere, fitsElse⟩ := elseRenamable yieldsElse accepted fitsThen
  simp only [Stmt.renamed, Stmt.cleared, Stmt.resolve, yields_bind, yields_pure]
  exact ⟨⟨_, _, conditionThere, _, _, thenThere, _, _, elseThere, rfl, rfl⟩, fitsElse⟩

theorem resolveLoop_renamed {condition : Expr} {body : Stmt} {increment : Option Expr}
    (span : Span) (conditionRenamable : RenamableExpr naming condition)
    (bodyRenamable : RenamableUndeclaring naming body)
    (incrementRenamable : RenamableOptionalExpr naming increment) :
    RenamableStmt naming (.loop condition body increment span) := by
  intro marks before after found yields accepted fits
  simp only [Stmt.resolve, yields_bind, yields_modify, yields_pure] at yields
  obtain ⟨_, _, yieldsCondition, _, _, rfl, _, reached, yieldsBody, _, _, rfl, _, _,
    yieldsIncrement, rfl, rfl⟩ := yields
  have quietIncrement := quiet_resolveOptionalExpr increment yieldsIncrement
  have acceptedBody : reached.errors = [] := quietIncrement.accepted accepted
  have acceptedCondition := (steady_resolve body yieldsBody).accepted acceptedBody
  have conditionThere := conditionRenamable yieldsCondition acceptedCondition fits
  obtain ⟨_, rfl⟩ := quiet_resolve condition yieldsCondition
  obtain ⟨bodyThere, fitsBody⟩ := bodyRenamable yieldsBody acceptedBody fits
  have incrementThere := incrementRenamable yieldsIncrement accepted fitsBody
  obtain ⟨_, rfl⟩ := quietIncrement
  simp only [Stmt.renamed, Stmt.cleared, Stmt.resolve, yields_bind, yields_modify, yields_pure]
  exact ⟨⟨_, _, conditionThere, (), _, rfl, _, _, bodyThere, (), _, rfl, _, _, incrementThere,
    rfl, rfl⟩, fitsBody⟩

theorem resolveDeclaration_renamed {declaration : FunctionDeclaration} (span : Span)
    (lacks : declaration.name.text ≠ naming.fresh)
    (functionRenamable : RenamableFunction naming .function declaration) :
    RenamableStmt naming (.function declaration span) := by
  intro marks before after found yields accepted fits
  simp only [Stmt.resolve, yields_bind, yields_pure] at yields
  obtain ⟨_, _, declares, _, defined, defines, bound, _, yieldsFunction, rfl, rfl⟩ := yields
  have quiet := quiet_resolveFunction _ declaration yieldsFunction
  have announces : Yields (do declare declaration.name; define declaration.name) before ()
      defined := yields_bind.mpr ⟨_, _, declares, defines⟩
  obtain ⟨announcesThere, fitsDefined⟩ := announce_kept announces (quiet.accepted accepted) fits
    lacks
  obtain ⟨_, _, declaresThere, definesThere⟩ := yields_bind.mp announcesThere
  have functionThere := functionRenamable yieldsFunction accepted fitsDefined
  have sameName : (clearedFunction
      (renamedFunction naming (marks.declare false) bound)).name = declaration.name := by
    rw [← name_resolveFunction yieldsFunction]
    cases bound
    rfl
  obtain ⟨_, rfl⟩ := quiet
  simp only [Stmt.renamed, Stmt.cleared, Stmt.resolve, yields_bind, yields_pure, sameName]
  exact ⟨⟨_, _, declaresThere, _, _, definesThere, _, _, functionThere, rfl, rfl⟩, fitsDefined⟩

theorem resolveReturn_renamed {value : Option Expr} (span : Span)
    (unbound : unboundOptionalExpr value) (valueRenamable : RenamableOptionalExpr naming value) :
    RenamableStmt naming (.return value span) := by
  intro marks before after found yields accepted fits
  simp only [Stmt.resolve, yields_bind, yields_pure] at yields
  obtain ⟨_, _, checks, bound, _, yieldsValue, rfl, rfl⟩ := yields
  have checksThere := checkReturn_renamed naming marks checks
  obtain ⟨_, rfl⟩ := quiet_checkReturn _ _ checks
  have valueThere := valueRenamable yieldsValue accepted fits
  have sameSome : (clearedOptionalExpr (renamedOptionalExpr naming marks bound)).isSome =
      value.isSome := by
    rw [← cleared_resolveOptionalExpr value yieldsValue unbound]
    cases bound <;> rfl
  obtain ⟨_, rfl⟩ := quiet_resolveOptionalExpr value yieldsValue
  simp only [Stmt.renamed, Stmt.cleared, Stmt.resolve, yields_bind, yields_pure, sameSome]
  exact ⟨⟨_, _, checksThere, _, _, valueThere, rfl, rfl⟩, fits⟩

/-- A class is bound as its methods are. -/
theorem resolveClass_renamed {name : Name} {superclass : Option Reference}
    {methods : List FunctionDeclaration} (span : Span) (lacks : name.text ≠ naming.fresh)
    (lack : ∀ reference ∈ superclass, reference.name.text ≠ naming.fresh)
    (unbound : ∀ reference ∈ superclass, reference.Unbound)
    (methodsRenamable : Renamable naming resolveMethods (renamedFunctions naming) clearedFunctions
      methods) :
    RenamableStmt naming (.class name superclass methods span) := by
  intro marks before after found yields accepted fits
  obtain ⟨boundSuperclass, boundMethods, rfl, ⟨announced, inherited, done, declares, inherits,
    binds, rfl⟩⟩ := yields_class yields
  have acceptedInherited : inherited.errors = [] :=
    (quiet_resolveMethods methods binds).accepted accepted
  have shape := readSuperclass_spec inherits
  have acceptedAnnounced : announced.errors = [] := by
    rcases shape with ⟨_, _, rfl⟩ | ⟨_, _, _, _, _, _, _, rfl⟩
    · exact acceptedInherited
    · exact (List.append_eq_nil_iff.mp acceptedInherited).1
  obtain ⟨declaresThere, fitsAnnounced⟩ := announce_kept declares acceptedAnnounced fits lacks
  obtain ⟨inheritsThere, fitsInherited⟩ := readSuperclass_renamed inherits acceptedInherited
    unbound fitsAnnounced lacks lack
  have bindsThere := methodsRenamable binds accepted
    (fitsInherited.implicit (this_ne_fresh naming))
  obtain ⟨more, rfl⟩ := quiet_resolveMethods methods binds
  cases boundSuperclass with
  | none =>
      have stages : ClassStages name none _ (before.renamed naming marks) none _ _ :=
        ⟨_, _, _, declaresThere, inheritsThere, bindsThere, rfl⟩
      exact ⟨stages.yields span, fitsInherited⟩
  | some reference =>
      rcases shape with ⟨_, impossible, _⟩ | ⟨_, _, _, _, _, _, _, rfl⟩
      · cases impossible
      · have stages : ClassStages name (some _) _ (before.renamed naming marks) (some _) _ _ :=
          ⟨_, _, _, declaresThere, inheritsThere, bindsThere, rfl⟩
        exact ⟨stages.yields span, fitsAnnounced⟩

/-! ## Functions -/

/-- A function is bound as its body is, in a scope with its parameters. -/
theorem resolveFunction_renamed_of_body (kind : FunctionKind) {name : Name}
    {parameters : List Name} {body : List Stmt} {isGetter : Bool}
    (plainNames : ∀ parameter ∈ parameters, Plain parameter.text)
    (absentNames : ∀ parameter ∈ parameters, ¬parameter.text = naming.fresh)
    (bodyRenamable : RenamableStmts naming body) :
    RenamableFunction naming kind ⟨name, parameters, body, isGetter⟩ := by
  intro marks before after found yields accepted fits
  simp only [resolveFunction, yields_bind, yields_get, yields_modify, yields_openScope,
    yields_closeScope, yields_pure] at yields
  obtain ⟨_, _, ⟨rfl, rfl⟩, _, _, rfl, _, _, rfl, _, declared, declares, bound, inside,
    yieldsBody, _, _, rfl, _, _, rfl, rfl, rfl⟩ := yields
  have acceptedNames := (steady_resolveStmts body yieldsBody).accepted accepted
  obtain ⟨declaresThere, fitsDeclared⟩ := declareParameters_renamed declares acceptedNames
    fits.opened absentNames plainNames
  obtain ⟨bodyThere, fitsInside⟩ := bodyRenamable yieldsBody accepted fitsDeclared
  obtain ⟨_, closed⟩ := Fits.closed bound fitsInside
  simp only [renamedFunction, clearedFunction, resolveFunction, yields_bind, yields_get,
    yields_modify, yields_openScope, yields_closeScope, yields_pure]
  refine ⟨_, _, ⟨rfl, rfl⟩, (), _, rfl, (), _, rfl, _, _, declaresThere, _, _, bodyThere, (), _,
    rfl, (), _, rfl, rfl, ?_⟩
  exact congrArg (fun scopes => { inside with
    scopes := scopes
    functionKind := before.functionKind
    loopDepth := before.loopDepth }) closed

/-! ## Trees -/

-- Induction on the tree. That there are no errors is known at the end of the pass and goes from
-- each part to the one before it; marks that fit the scopes go from each part to the next.
mutual

theorem resolve_renamed : (expr : Expr) → expr.Unbound → naming.fresh ∉ expr.variableNames →
    RenamableExpr naming expr
  | .literal _ _ => by
      intro _ _ marks before after found yields _ _
      obtain ⟨rfl, rfl⟩ := yields_pure.mp yields
      exact yields_pure.mpr ⟨rfl, rfl⟩
  | .grouping inner _ => by
      intro unbound absent marks before after found yields accepted fits
      simp only [Expr.resolve, yields_bind, yields_pure] at yields
      obtain ⟨_, _, yieldsInner, rfl, rfl⟩ := yields
      have innerThere := resolve_renamed inner unbound absent yieldsInner accepted fits
      simp only [Expr.renamed, Expr.cleared, Expr.resolve, yields_bind, yields_pure]
      exact ⟨_, _, innerThere, rfl, rfl⟩
  | .variable reference => by
      intro unbound absent marks before after found yields accepted fits
      simp only [Expr.resolve, yields_bind, yields_pure] at yields
      obtain ⟨_, _, reads, rfl, rfl⟩ := yields
      have lacks : reference.name.text ≠ naming.fresh := by
        simpa [Expr.variableNames, eq_comm] using absent
      have readsThere := readVariable_renamed reads accepted unbound fits lacks
      simp only [Expr.renamed, Expr.cleared, Expr.resolve, yields_bind, yields_pure]
      exact ⟨_, _, readsThere, rfl, rfl⟩
  | .assign target value _ => by
      intro unbound absent marks before after found yields accepted fits
      simp only [Expr.resolve, unbound.1.1, yields_bind, yields_pure] at yields
      obtain ⟨_, middle, yieldsValue, address, _, looksUp, rfl, rfl⟩ := yields
      obtain ⟨lacks, absentValue⟩ : target.name.text ≠ naming.fresh ∧
          naming.fresh ∉ value.variableNames := by
        simpa [Expr.variableNames, eq_comm] using absent
      have acceptedValue := (quiet_lookUp _ _ looksUp).accepted accepted
      have valueThere := resolve_renamed value unbound.2 absentValue yieldsValue acceptedValue fits
      obtain ⟨_, rfl⟩ := quiet_resolve value yieldsValue
      have looksUpThere := lookUp_renamed looksUp fits lacks
      simp only [Expr.renamed, Expr.cleared, Expr.resolve, yields_bind, yields_pure]
      exact ⟨_, _, valueThere, _, _, looksUpThere, rfl, rfl⟩
  | .unary _ operand _ => by
      intro unbound absent marks before after found yields accepted fits
      simp only [Expr.resolve, yields_bind, yields_pure] at yields
      obtain ⟨_, _, yieldsOperand, rfl, rfl⟩ := yields
      have operandThere := resolve_renamed operand unbound absent yieldsOperand accepted fits
      simp only [Expr.renamed, Expr.cleared, Expr.resolve, yields_bind, yields_pure]
      exact ⟨_, _, operandThere, rfl, rfl⟩
  | .binary _ left right _ => by
      intro unbound absent marks before after found yields accepted fits
      simp only [Expr.resolve, yields_bind, yields_pure] at yields
      obtain ⟨_, _, yieldsLeft, _, _, yieldsRight, rfl, rfl⟩ := yields
      simp only [Expr.variableNames, List.mem_append, not_or] at absent
      obtain ⟨leftThere, rightThere⟩ := (resolve_renamed left unbound.1 absent.1).both
        (resolve_renamed right unbound.2 absent.2) (quiet_resolve left) (quiet_resolve right)
        yieldsLeft yieldsRight accepted fits
      simp only [Expr.renamed, Expr.cleared, Expr.resolve, yields_bind, yields_pure]
      exact ⟨_, _, leftThere, _, _, rightThere, rfl, rfl⟩
  | .logical _ left right _ => by
      intro unbound absent marks before after found yields accepted fits
      simp only [Expr.resolve, yields_bind, yields_pure] at yields
      obtain ⟨_, _, yieldsLeft, _, _, yieldsRight, rfl, rfl⟩ := yields
      simp only [Expr.variableNames, List.mem_append, not_or] at absent
      obtain ⟨leftThere, rightThere⟩ := (resolve_renamed left unbound.1 absent.1).both
        (resolve_renamed right unbound.2 absent.2) (quiet_resolve left) (quiet_resolve right)
        yieldsLeft yieldsRight accepted fits
      simp only [Expr.renamed, Expr.cleared, Expr.resolve, yields_bind, yields_pure]
      exact ⟨_, _, leftThere, _, _, rightThere, rfl, rfl⟩
  | .call callee arguments _ => by
      intro unbound absent marks before after found yields accepted fits
      simp only [Expr.resolve, yields_bind, yields_pure] at yields
      obtain ⟨_, _, yieldsCallee, _, _, yieldsArguments, rfl, rfl⟩ := yields
      simp only [Expr.variableNames, List.mem_append, not_or] at absent
      obtain ⟨calleeThere, argumentsThere⟩ := (resolve_renamed callee unbound.1 absent.1).both
        (resolveExprs_renamed arguments unbound.2 absent.2) (quiet_resolve callee)
        (quiet_resolveExprs arguments) yieldsCallee yieldsArguments accepted fits
      simp only [Expr.renamed, Expr.cleared, Expr.resolve, yields_bind, yields_pure]
      exact ⟨_, _, calleeThere, _, _, argumentsThere, rfl, rfl⟩
  | .get object _ => by
      intro unbound absent marks before after found yields accepted fits
      simp only [Expr.resolve, yields_bind, yields_pure] at yields
      obtain ⟨_, _, yieldsObject, rfl, rfl⟩ := yields
      have objectThere := resolve_renamed object unbound absent yieldsObject accepted fits
      simp only [Expr.renamed, Expr.cleared, Expr.resolve, yields_bind, yields_pure]
      exact ⟨_, _, objectThere, rfl, rfl⟩
  | .set object _ value _ => by
      intro unbound absent marks before after found yields accepted fits
      simp only [Expr.resolve, yields_bind, yields_pure] at yields
      obtain ⟨_, _, yieldsValue, _, _, yieldsObject, rfl, rfl⟩ := yields
      simp only [Expr.variableNames, List.mem_append, not_or] at absent
      obtain ⟨valueThere, objectThere⟩ := (resolve_renamed value unbound.2 absent.2).both
        (resolve_renamed object unbound.1 absent.1) (quiet_resolve value) (quiet_resolve object)
        yieldsValue yieldsObject accepted fits
      simp only [Expr.renamed, Expr.cleared, Expr.resolve, yields_bind, yields_pure]
      exact ⟨_, _, valueThere, _, _, objectThere, rfl, rfl⟩
  | .this _ _ => by
      intro unbound _ marks before after found yields accepted fits
      simp only [Expr.resolve, yields_bind, yields_pure] at yields
      obtain ⟨_, _, reads, rfl, rfl⟩ := yields
      have readsThere := readThis_renamed reads accepted unbound fits
      simp only [Expr.renamed, Expr.cleared, Expr.resolve, yields_bind, yields_pure]
      exact ⟨_, _, readsThere, rfl, rfl⟩
  | .super _ _ _ => by
      intro unbound _ marks before after found yields accepted fits
      simp only [Expr.resolve, yields_bind, yields_pure] at yields
      obtain ⟨_, _, reads, rfl, rfl⟩ := yields
      have readsThere := readSuper_renamed reads accepted unbound fits
      simp only [Expr.renamed, Expr.cleared, Expr.resolve, yields_bind, yields_pure]
      exact ⟨_, _, readsThere, rfl, rfl⟩
  | .lambda function => by
      intro unbound absent marks before after found yields accepted fits
      simp only [Expr.resolve, yields_bind, yields_pure] at yields
      obtain ⟨_, _, yieldsFunction, rfl, rfl⟩ := yields
      have functionThere := resolveFunction_renamed _ function unbound absent yieldsFunction
        accepted fits
      simp only [Expr.renamed, Expr.cleared, Expr.resolve, yields_bind, yields_pure]
      exact ⟨_, _, functionThere, rfl, rfl⟩

theorem resolveExprs_renamed : (exprs : List Expr) → unboundExprs exprs →
    naming.fresh ∉ variableNamesOfExprs exprs →
    Renamable naming resolveExprs (renamedExprs naming) clearedExprs exprs
  | [] => by
      intro _ _ marks before after found yields _ _
      obtain ⟨rfl, rfl⟩ := yields_pure.mp yields
      exact yields_pure.mpr ⟨rfl, rfl⟩
  | expr :: rest => by
      intro unbound absent marks before after found yields accepted fits
      simp only [resolveExprs, yields_bind, yields_pure] at yields
      obtain ⟨_, _, yieldsFirst, _, _, yieldsRest, rfl, rfl⟩ := yields
      simp only [variableNamesOfExprs, List.mem_append, not_or] at absent
      obtain ⟨firstThere, restThere⟩ := (resolve_renamed expr unbound.1 absent.1).both
        (resolveExprs_renamed rest unbound.2 absent.2) (quiet_resolve expr)
        (quiet_resolveExprs rest) yieldsFirst yieldsRest accepted fits
      simp only [renamedExprs, clearedExprs, resolveExprs, yields_bind, yields_pure]
      exact ⟨_, _, firstThere, _, _, restThere, rfl, rfl⟩

theorem resolveOptionalExpr_renamed : (expr : Option Expr) → unboundOptionalExpr expr →
    naming.fresh ∉ variableNamesOfOptionalExpr expr → RenamableOptionalExpr naming expr
  | none => by
      intro _ _ marks before after found yields _ _
      obtain ⟨rfl, rfl⟩ := yields_pure.mp yields
      exact yields_pure.mpr ⟨rfl, rfl⟩
  | some expr => by
      intro unbound absent marks before after found yields accepted fits
      simp only [resolveOptionalExpr, yields_bind, yields_pure] at yields
      obtain ⟨_, _, yieldsExpr, rfl, rfl⟩ := yields
      have exprThere := resolve_renamed expr unbound absent yieldsExpr accepted fits
      simp only [renamedOptionalExpr, clearedOptionalExpr, resolveOptionalExpr, yields_bind,
        yields_pure]
      exact ⟨_, _, exprThere, rfl, rfl⟩

theorem resolveStmt_renamed : (stmt : Stmt) → stmt.Unbound → naming.fresh ∉ stmt.variableNames →
    RenamableStmt naming stmt
  | .expression value _ => by
      intro unbound absent marks before after found yields accepted fits
      simp only [Stmt.resolve, yields_bind, yields_pure] at yields
      obtain ⟨_, _, yieldsValue, rfl, rfl⟩ := yields
      have valueThere := resolve_renamed value unbound absent yieldsValue accepted fits
      obtain ⟨_, rfl⟩ := quiet_resolve value yieldsValue
      simp only [Stmt.renamed, Stmt.cleared, Stmt.resolve, yields_bind, yields_pure]
      exact ⟨⟨_, _, valueThere, rfl, rfl⟩, fits⟩
  | .print value _ => by
      intro unbound absent marks before after found yields accepted fits
      simp only [Stmt.resolve, yields_bind, yields_pure] at yields
      obtain ⟨_, _, yieldsValue, rfl, rfl⟩ := yields
      have valueThere := resolve_renamed value unbound absent yieldsValue accepted fits
      obtain ⟨_, rfl⟩ := quiet_resolve value yieldsValue
      simp only [Stmt.renamed, Stmt.cleared, Stmt.resolve, yields_bind, yields_pure]
      exact ⟨⟨_, _, valueThere, rfl, rfl⟩, fits⟩
  | .var name initializer span => by
      intro unbound absent
      obtain ⟨lacks, absentInitializer⟩ : name.text ≠ naming.fresh ∧
          naming.fresh ∉ variableNamesOfOptionalExpr initializer := by
        simpa [Stmt.variableNames, eq_comm] using absent
      exact resolveVar_renamed span unbound.1 lacks
        (resolveOptionalExpr_renamed initializer unbound.2 absentInitializer)
  | .block statements span => fun unbound absent =>
      resolveBlock_renamed span (resolveStmts_renamed statements unbound absent)
  | .conditional condition thenBranch elseBranch span => by
      intro unbound absent
      obtain ⟨unboundCondition, ⟨unboundThen, undeclaring⟩, unboundElse⟩ := unbound
      simp only [Stmt.variableNames, List.mem_append, not_or] at absent
      obtain ⟨⟨absentCondition, absentThen⟩, absentElse⟩ := absent
      have thenThere := resolveStmt_renamed thenBranch unboundThen absentThen
      exact resolveConditional_renamed span
        (resolve_renamed condition unboundCondition absentCondition)
        (thenThere.undeclaring unboundThen undeclaring)
        (resolveBranch_renamed elseBranch unboundElse absentElse)
  | .loop condition body increment span => by
      intro unbound absent
      obtain ⟨unboundCondition, ⟨unboundBody, undeclaring⟩, unboundIncrement⟩ := unbound
      simp only [Stmt.variableNames, List.mem_append, not_or] at absent
      obtain ⟨⟨absentCondition, absentBody⟩, absentIncrement⟩ := absent
      have bodyThere := resolveStmt_renamed body unboundBody absentBody
      exact resolveLoop_renamed span (resolve_renamed condition unboundCondition absentCondition)
        (bodyThere.undeclaring unboundBody undeclaring)
        (resolveOptionalExpr_renamed increment unboundIncrement absentIncrement)
  | .function declaration span => by
      intro unbound absent
      obtain ⟨lacks, absentFunction⟩ : declaration.name.text ≠ naming.fresh ∧
          naming.fresh ∉ variableNamesOfFunction declaration := by
        simpa [Stmt.variableNames, eq_comm] using absent
      exact resolveDeclaration_renamed span lacks
        (resolveFunction_renamed _ declaration unbound.2 absentFunction)
  | .return value span => fun unbound absent =>
      resolveReturn_renamed span unbound (resolveOptionalExpr_renamed value unbound absent)
  | .class name superclass methods span => by
      intro unbound absent
      obtain ⟨_, unboundSuperclass, unboundMethods⟩ := unbound
      obtain ⟨lacks, lack, absentMethods⟩ : name.text ≠ naming.fresh ∧
          (∀ reference ∈ superclass, reference.name.text ≠ naming.fresh) ∧
          naming.fresh ∉ variableNamesOfFunctions methods := by
        simpa [Stmt.variableNames, eq_comm] using absent
      exact resolveClass_renamed span lacks lack unboundSuperclass
        (resolveMethods_renamed methods unboundMethods absentMethods)
  | .break _ => by
      intro _ _ marks before after found yields accepted fits
      simp only [Stmt.resolve, yields_bind, yields_pure] at yields
      obtain ⟨_, _, checks, rfl, rfl⟩ := yields
      have checksThere := checkJump_renamed naming marks checks
      obtain ⟨_, rfl⟩ := quiet_checkJump _ _ _ checks
      simp only [Stmt.renamed, Stmt.cleared, Stmt.resolve, yields_bind, yields_pure, true_and]
      exact ⟨⟨_, _, checksThere, rfl⟩, fits⟩
  | .continue _ => by
      intro _ _ marks before after found yields accepted fits
      simp only [Stmt.resolve, yields_bind, yields_pure] at yields
      obtain ⟨_, _, checks, rfl, rfl⟩ := yields
      have checksThere := checkJump_renamed naming marks checks
      obtain ⟨_, rfl⟩ := quiet_checkJump _ _ _ checks
      simp only [Stmt.renamed, Stmt.cleared, Stmt.resolve, yields_bind, yields_pure, true_and]
      exact ⟨⟨_, _, checksThere, rfl⟩, fits⟩

theorem resolveBranch_renamed : (stmt : Option Stmt) → unboundBranch stmt →
    naming.fresh ∉ variableNamesOfOptionalStmt stmt → RenamableBranch naming stmt
  | none => by
      intro _ _ marks before after found yields _ fits
      obtain ⟨rfl, rfl⟩ := yields_pure.mp yields
      exact ⟨yields_pure.mpr ⟨rfl, rfl⟩, fits⟩
  | some stmt => by
      intro unbound absent marks before after found yields accepted fits
      simp only [resolveOptionalStmt, yields_bind, yields_pure] at yields
      obtain ⟨_, _, yieldsStmt, rfl, rfl⟩ := yields
      have there := resolveStmt_renamed stmt unbound.1 absent
      obtain ⟨stmtThere, fitsAfter⟩ :=
        there.undeclaring unbound.1 unbound.2 yieldsStmt accepted fits
      simp only [renamedOptionalStmt, clearedOptionalStmt, resolveOptionalStmt, yields_bind,
        yields_pure]
      exact ⟨⟨_, _, stmtThere, rfl, rfl⟩, fitsAfter⟩

theorem resolveStmts_renamed : (stmts : List Stmt) → unboundStmts stmts →
    naming.fresh ∉ variableNamesOfStmts stmts → RenamableStmts naming stmts
  | [] => by
      intro _ _ marks before after found yields _ fits
      obtain ⟨rfl, rfl⟩ := yields_pure.mp yields
      exact ⟨yields_pure.mpr ⟨rfl, rfl⟩, fits⟩
  | stmt :: rest => by
      intro unbound absent marks before after found yields accepted fits
      simp only [resolveStmts, yields_bind, yields_pure] at yields
      obtain ⟨_, _, yieldsFirst, _, _, yieldsRest, rfl, rfl⟩ := yields
      simp only [variableNamesOfStmts, List.mem_append, not_or] at absent
      have acceptedFirst := (steady_resolveStmts rest yieldsRest).accepted accepted
      obtain ⟨firstThere, fitsFirst⟩ :=
        resolveStmt_renamed stmt unbound.1 absent.1 yieldsFirst acceptedFirst fits
      obtain ⟨restThere, fitsRest⟩ :=
        resolveStmts_renamed rest unbound.2 absent.2 yieldsRest accepted fitsFirst
      simp only [renamedStmts, clearedStmts, resolveStmts, yields_bind, yields_pure]
      exact ⟨⟨_, _, firstThere, _, _, restThere, rfl, rfl⟩, fitsRest⟩

theorem resolveFunction_renamed (kind : FunctionKind) : (function : FunctionDeclaration) →
    unboundFunction function → naming.fresh ∉ variableNamesOfFunction function →
    RenamableFunction naming kind function
  | ⟨name, parameters, body, isGetter⟩ => by
      intro unbound absent
      obtain ⟨plainNames, _, unboundBody⟩ := unbound
      simp only [variableNamesOfFunction, List.mem_append, List.mem_map, not_or, not_exists,
        not_and] at absent
      exact resolveFunction_renamed_of_body kind plainNames absent.1
        (resolveStmts_renamed body unboundBody absent.2)

theorem resolveMethods_renamed : (methods : List FunctionDeclaration) →
    unboundFunctions methods → naming.fresh ∉ variableNamesOfFunctions methods →
    Renamable naming resolveMethods (renamedFunctions naming) clearedFunctions methods
  | [] => by
      intro _ _ marks before after found yields _ _
      obtain ⟨rfl, rfl⟩ := yields_pure.mp yields
      exact yields_pure.mpr ⟨rfl, rfl⟩
  | method :: rest => by
      intro unbound absent marks before after found yields accepted fits
      simp only [resolveMethods, yields_bind, yields_pure] at yields
      obtain ⟨bound, _, yieldsFirst, _, _, yieldsRest, rfl, rfl⟩ := yields
      simp only [variableNamesOfFunctions, List.mem_append, not_or] at absent
      have sameKind : methodKind (clearedFunction (renamedFunction naming marks bound)) =
          methodKind method :=
        (methodKind_renamed marks bound).trans (methodKind_resolve yieldsFirst unbound.1)
      obtain ⟨firstThere, restThere⟩ := (resolveFunction_renamed _ method unbound.1 absent.1).both
        (resolveMethods_renamed rest unbound.2 absent.2) (quiet_resolveFunction _ method)
        (quiet_resolveMethods rest) yieldsFirst yieldsRest accepted fits
      simp only [renamedFunctions, clearedFunctions, resolveMethods, yields_bind, yields_pure,
        sameKind]
      exact ⟨_, _, firstThere, _, _, restThere, rfl, rfl⟩

end

/-- A program in which the variable has its fresh name is accepted, and gets the same addresses. -/
theorem AtTop.resolve_renamed {resolver : Resolver} (atTop : AtTop resolver) {program : Program}
    (unbound : unboundStmts program.statements) (accepted : (resolver.resolve program).errors = [])
    (absent : naming.fresh ∉ program.variableNames) :
    resolver.resolve ((resolver.resolve program).program.renamed naming).cleared =
      ⟨(resolver.resolve program).program.renamed naming, [],
        (resolver.resolve program).resolver⟩ := by
  obtain ⟨after, yields, errors, same⟩ := yields_resolve resolver program
  have fits : Fits naming [] resolver.scopes := atTop.scopes ▸ trivial
  obtain ⟨there, _⟩ :=
    resolveStmts_renamed program.statements unbound absent yields (errors ▸ accepted) fits
  have steady := steady_resolveStmts program.statements yields
  rw [Resolver.renamed_of_top naming [] atTop.scopes,
    Resolver.renamed_of_top naming _ (steady.top.mpr atTop.scopes)] at there
  have resolved : resolver.resolve ((resolver.resolve program).program.renamed naming).cleared =
      ⟨(resolver.resolve program).program.renamed naming, after.errors,
        { after with errors := [] }⟩ := resolve_of_yields there
  rw [resolved, same, ← errors, accepted]

end Lox.Binding
