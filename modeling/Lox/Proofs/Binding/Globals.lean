import Lox.Proofs.Binding.Unbound
import Lox.Proofs.Binding.Yields

/-!
Contract: what the pass over names makes of the globals that it knows.

The pass looks at its globals in one case only: a variable is read in the initializer
of a global of the same name, and not in a function. So with other globals it finds
the same in every scope (`Runs`), and an expression at top level may only miss
complaints about such reads (`Compares`).

Main statements: `compares_resolve`, `runs_resolve`.

Owns: the pass under two tables of globals. Does not own: declarations at top level.
-/

set_option autoImplicit false

namespace Lox

/-! ## Reads -/

mutual

/-- The variables that the expression reads outside the functions in it. -/
def Expr.reads : Expr → List String
  | .literal _ _ => []
  | .grouping inner _ => inner.reads
  | .variable reference => [reference.name.text]
  | .assign _ value _ => value.reads
  | .unary _ operand _ => operand.reads
  | .binary _ left right _ => left.reads ++ right.reads
  | .logical _ left right _ => left.reads ++ right.reads
  | .call callee arguments _ => callee.reads ++ readsOfExprs arguments
  | .get object _ => object.reads
  | .set object _ value _ => value.reads ++ object.reads
  | .this _ _ => []
  | .super _ _ _ => []
  | .lambda _ => []

/-- The variables that the expressions read outside the functions in them. -/
def readsOfExprs : List Expr → List String
  | [] => []
  | expr :: rest => expr.reads ++ readsOfExprs rest

end

/-- The variables that the expression, if there is one, reads outside functions. -/
def readsOfOptionalExpr : Option Expr → List String
  | none => []
  | some expr => expr.reads

namespace Binding

variable {α β : Type}

/-- The resolver with other globals and other errors. -/
abbrev beside (resolver : Resolver) (globals : Table Bool) (errors : List BindingError) :
    Resolver :=
  { resolver with globals := globals, errors := errors }

/-! ## Passes that do not look at globals -/

/-- From a resolver with these globals instead, the pass finds the same and adds the
same errors. -/
def Runs (globals : Table Bool) (pass : Pass α) (before : Resolver) (found : α)
    (after : Resolver) : Prop :=
  ∀ errors, ∃ more, after.errors = before.errors ++ more ∧
    Yields pass (beside before globals errors) found (beside after globals (errors ++ more))

variable {before middle after : Resolver} {globals : Table Bool}

theorem Runs.bind {first : Pass α} {next : α → Pass β} {value : α} {found : β}
    (one : Runs globals first before value middle)
    (two : Runs globals (next value) middle found after) :
    Runs globals (first >>= next) before found after := by
  intro errors
  obtain ⟨more, extended, yieldsFirst⟩ := one errors
  obtain ⟨others, further, yieldsNext⟩ := two (errors ++ more)
  refine ⟨more ++ others, ?_, yields_bind.mpr ⟨_, _, yieldsFirst, ?_⟩⟩
  · rw [further, extended, List.append_assoc]
  · rw [← List.append_assoc]
    exact yieldsNext

theorem runs_pure (value : α) (before : Resolver) :
    Runs globals (pure value) before value before := by
  intro errors
  exact ⟨[], by simp, by simp⟩

/-- A step that looks at what is not changed. -/
theorem runs_get_bind {next : Resolver → Pass β} {found : β}
    (same : ∀ errors, next (beside before globals errors) = next before)
    (runs : Runs globals (next before) before found after) :
    Runs globals (get >>= next) before found after := by
  intro errors
  obtain ⟨more, extended, yields⟩ := runs errors
  refine ⟨more, extended, yields_bind.mpr ⟨_, _, yields_get.mpr ⟨rfl, rfl⟩, ?_⟩⟩
  rw [same]
  exact yields

theorem runs_modify {change : Resolver → Resolver}
    (keepsErrors : (change before).errors = before.errors)
    (same : ∀ errors,
      change (beside before globals errors) = beside (change before) globals errors) :
    Runs globals (modify change) before PUnit.unit (change before) := by
  intro errors
  refine ⟨[], by simp [keepsErrors], yields_modify.mpr ?_⟩
  rw [same, List.append_nil]

theorem runs_reportIf (broken : Bool) (cause : BindingError.Cause) (lexeme : String) (span : Span)
    {found : Unit} (yields : Yields (reportIf broken cause lexeme span) before found after) :
    Runs globals (reportIf broken cause lexeme span) before found after := by
  intro errors
  obtain rfl := yields_reportIf.mp yields
  exact ⟨_, rfl, yields_reportIf.mpr rfl⟩

theorem runs_report (cause : BindingError.Cause) (lexeme : String) (span : Span) {found : Unit}
    (yields : Yields (report cause lexeme span) before found after) :
    Runs globals (report cause lexeme span) before found after := by
  intro errors
  obtain rfl := yields_report.mp yields
  exact ⟨_, rfl, yields_report.mpr rfl⟩

theorem runs_lookUp (name : String) (old : Option Address) {found : Option Address}
    (yields : Yields (lookUp name old) before found after) :
    Runs globals (lookUp name old) before found after := by
  intro errors
  obtain ⟨same, rfl⟩ := yields_lookUp.mp yields
  exact ⟨[], by simp, yields_lookUp.mpr ⟨same, by simp⟩⟩

theorem runs_readThis (address : Option Address) (span : Span) {found : Option Address}
    (yields : Yields (readThis address span) before found after) :
    Runs globals (readThis address span) before found after := by
  obtain ⟨_, _, ⟨rfl, rfl⟩, rest⟩ := yields_bind.mp yields
  refine runs_get_bind (fun _ => rfl) ?_
  split at rest
  · next outside =>
      simp only [outside, if_true]
      obtain ⟨_, _, reports, ends⟩ := yields_bind.mp rest
      obtain ⟨rfl, rfl⟩ := yields_pure.mp ends
      exact (runs_report _ _ _ reports).bind (runs_pure _ _)
  · next inClass =>
      simp only [inClass, if_false]
      exact runs_lookUp _ _ rest

theorem runs_readSuper (address : Option Address) (span : Span) {found : Option Address}
    (yields : Yields (readSuper address span) before found after) :
    Runs globals (readSuper address span) before found after := by
  obtain ⟨_, _, ⟨rfl, rfl⟩, rest⟩ := yields_bind.mp yields
  refine runs_get_bind (fun _ => rfl) ?_
  cases kind : before.classKind with
  | none =>
      simp only [kind] at rest ⊢
      obtain ⟨_, _, reports, looksUp⟩ := yields_bind.mp rest
      exact (runs_report _ _ _ reports).bind (runs_lookUp _ _ looksUp)
  | base =>
      simp only [kind] at rest ⊢
      obtain ⟨_, _, reports, looksUp⟩ := yields_bind.mp rest
      exact (runs_report _ _ _ reports).bind (runs_lookUp _ _ looksUp)
  | subclass =>
      simp only [kind] at rest ⊢
      exact runs_lookUp _ _ rest

theorem runs_checkReturn (hasValue : Bool) (span : Span) {found : Unit}
    (yields : Yields (checkReturn hasValue span) before found after) :
    Runs globals (checkReturn hasValue span) before found after := by
  obtain ⟨_, _, ⟨rfl, rfl⟩, rest⟩ := yields_bind.mp yields
  obtain ⟨_, _, first, second⟩ := yields_bind.mp rest
  exact runs_get_bind (fun _ => rfl)
    ((runs_reportIf _ _ _ _ first).bind (runs_reportIf _ _ _ _ second))

theorem runs_checkJump (cause : BindingError.Cause) (lexeme : String) (span : Span) {found : Unit}
    (yields : Yields (checkJump cause lexeme span) before found after) :
    Runs globals (checkJump cause lexeme span) before found after := by
  obtain ⟨_, _, ⟨rfl, rfl⟩, rest⟩ := yields_bind.mp yields
  exact runs_get_bind (fun _ => rfl) (runs_reportIf _ _ _ _ rest)

theorem runs_openScope (scope : Scope) (before : Resolver) :
    Runs globals (openScope scope) before () { before with scopes := scope :: before.scopes } :=
  runs_modify rfl fun _ => rfl

theorem runs_closeScope (before : Resolver) :
    Runs globals closeScope before () { before with scopes := before.scopes.tail } :=
  runs_modify rfl fun _ => rfl

/-- In a scope, a declaration leaves the globals alone. -/
theorem runs_declare (name : Name) {found : Unit}
    (yields : Yields (declare name) before found after) (inside : before.scopes ≠ []) : Runs globals (declare name) before found after := by
  obtain ⟨_, _, ⟨rfl, rfl⟩, rest⟩ := yields_bind.mp yields
  intro errors
  obtain ⟨scope, outer, opened⟩ := List.exists_cons_of_ne_nil inside
  simp only [opened] at rest
  simp only [declare, yields_bind, yields_get]
  split at rest
  · next known =>
      obtain rfl := yields_report.mp rest
      refine ⟨_, rfl, _, _, ⟨rfl, rfl⟩, ?_⟩
      simp [opened, known]
  · next fresh =>
      obtain rfl := yields_set.mp rest
      refine ⟨[], by simp, _, _, ⟨rfl, rfl⟩, ?_⟩
      simp [opened, fresh]

theorem runs_define (name : Name) {found : Unit} (yields : Yields (define name) before found after)
    (inside : before.scopes ≠ []) : Runs globals (define name) before found after := by
  intro errors
  obtain ⟨scope, outer, opened⟩ := List.exists_cons_of_ne_nil inside
  simp only [define, yields_modify, opened] at yields ⊢
  subst yields
  exact ⟨[], by simp, by simp⟩

theorem Steady.inside (steady : Steady before after) (inside : before.scopes ≠ []) :
    after.scopes ≠ [] :=
  mt steady.top.mp inside

theorem runs_declareParameters (parameters : List Name) {found : Unit}
    (yields : Yields (declareParameters parameters) before found after)
    (inside : before.scopes ≠ []) :
    Runs globals (declareParameters parameters) before found after := by
  induction parameters generalizing before with
  | nil =>
      obtain ⟨_, rfl⟩ := yields_pure.mp yields
      exact runs_pure _ _
  | cons parameter rest inductionHypothesis =>
      simp only [declareParameters, yields_bind] at yields
      obtain ⟨_, _, declares, _, _, defines, others⟩ := yields
      have declared := (steady_declare parameter declares).inside inside
      have defined := (steady_define parameter defines).inside declared
      exact (runs_declare parameter declares inside).bind
        ((runs_define parameter defines declared).bind (inductionHypothesis others defined))

/-! ## Passes that look at globals in initializers only -/

/-- From a resolver with other globals, in which fewer names are of the initializer
around, the pass finds the same and adds some of the same errors. It adds all of them
exactly if no name that is read makes a difference. -/
def Compares (pass : Pass α) (reads : List String) : Prop :=
  ∀ ⦃before after : Resolver⦄ ⦃found : α⦄, Yields pass before found after →
    ∀ globals errors,
      (∀ name, inOwnInitializer (beside before globals errors) name = true →
        inOwnInitializer before name = true) →
      ∃ more fewer, after = { before with errors := before.errors ++ more } ∧
        Yields pass (beside before globals errors) found
          (beside before globals (errors ++ fewer)) ∧
        fewer.Sublist more ∧
        (fewer = more ↔ ∀ name ∈ reads,
          inOwnInitializer (beside before globals errors) name = inOwnInitializer before name)

theorem append_eq_append_of_sublist {γ : Type} {first second first' second' : List γ}
    (one : first'.Sublist first) (two : second'.Sublist second) :
    first' ++ second' = first ++ second ↔ first' = first ∧ second' = second := by
  constructor
  · intro same
    have lengths := congrArg List.length same
    rw [List.length_append, List.length_append] at lengths
    have lessFirst := one.length_le
    have lessSecond := two.length_le
    exact ⟨one.eq_of_length (by omega), two.eq_of_length (by omega)⟩
  · intro both
    rw [both.1, both.2]

theorem Compares.bind {first : Pass α} {next : α → Pass β} {reads others : List String}
    (one : Compares first reads) (two : ∀ value, Compares (next value) others) :
    Compares (first >>= next) (reads ++ others) := by
  intro before after found yields globals errors less
  obtain ⟨value, middle, yieldsFirst, yieldsNext⟩ := yields_bind.mp yields
  obtain ⟨more, fewer, rfl, shadowFirst, part, same⟩ := one yieldsFirst globals errors less
  obtain ⟨more', fewer', rfl, shadowNext, part', same'⟩ :=
    two value yieldsNext globals (errors ++ fewer) less
  refine ⟨more ++ more', fewer ++ fewer', by simp, yields_bind.mpr ⟨_, _, shadowFirst, ?_⟩,
    part.append part', ?_⟩
  · rw [← List.append_assoc]
    exact shadowNext
  · rw [append_eq_append_of_sublist part part', same, same', List.forall_mem_append]
    exact Iff.rfl

theorem Compares.of_runs {pass : Pass α} (quiet : Quietly pass)
    (runs : ∀ ⦃globals : Table Bool⦄ ⦃before after : Resolver⦄ ⦃found : α⦄,
      Yields pass before found after → Runs globals pass before found after) :
    Compares pass [] := by
  intro before after found yields globals errors _
  obtain ⟨more, rfl⟩ := quiet yields
  obtain ⟨others, extended, shadow⟩ := runs yields errors
  obtain rfl : more = others := List.append_cancel_left extended
  exact ⟨more, more, rfl, shadow, List.Sublist.refl more, by simp⟩

theorem Compares.pure (value : α) : Compares (Pure.pure value) [] :=
  .of_runs (.pure value) fun _ _ _ _ yields => by
    obtain ⟨rfl, rfl⟩ := yields_pure.mp yields
    exact runs_pure _ _

/-- What follows reads nothing. -/
theorem Compares.map {first : Pass α} {next : α → Pass β} {reads : List String}
    (one : Compares first reads) (two : ∀ value, Compares (next value) []) :
    Compares (first >>= next) reads := by
  have both := one.bind two
  rwa [List.append_nil] at both

/-- No name is in its own initializer with one of the tables alone. -/
def Alike (before : Resolver) (globals : Table Bool) : Prop :=
  ∀ name, inOwnInitializer { before with globals := globals } name = inOwnInitializer before name

theorem Alike.of_inside (globals : Table Bool) (inside : before.scopes ≠ []) :
    Alike before globals := by
  intro name
  obtain ⟨scope, outer, opened⟩ := List.exists_cons_of_ne_nil inside
  simp [inOwnInitializer, opened]

theorem Alike.quiet (alike : Alike before globals) (quiet : Quiet before after) :
    Alike after globals := by
  obtain ⟨more, rfl⟩ := quiet
  exact alike

/-- Where the tables are alike, they make no difference. -/
theorem Compares.runs {pass : Pass α} {reads : List String} {found : α}
    (compares : Compares pass reads) (yields : Yields pass before found after)
    (alike : Alike before globals) : Runs globals pass before found after := by
  intro errors
  obtain ⟨more, fewer, rfl, shadow, _, same⟩ :=
    compares yields globals errors fun name reads => (alike name).symm.trans reads
  obtain rfl : fewer = more := same.mpr fun name _ => alike name
  exact ⟨fewer, rfl, shadow⟩

theorem Compares.runs_inside {pass : Pass α} {reads : List String} {found : α}
    (compares : Compares pass reads) (yields : Yields pass before found after)
    (inside : before.scopes ≠ []) : Runs globals pass before found after :=
  compares.runs yields (.of_inside globals inside)

theorem compares_readVariable (reference : Reference) :
    Compares (readVariable reference) [reference.name.text] := by
  intro before after found yields globals errors less
  simp only [readVariable, yields_bind, yields_get, yields_reportIf, yields_lookUp,
    yields_pure] at yields
  obtain ⟨_, _, ⟨rfl, rfl⟩, _, _, rfl, _, _, ⟨rfl, rfl⟩, rfl, rfl⟩ := yields
  have shadow : Yields (readVariable reference) (beside before globals errors)
      { reference with
        address := (address? reference.name.text before.scopes).or reference.address }
      (beside before globals (errors ++
        if inOwnInitializer (beside before globals errors) reference.name.text then
          [⟨.ownInitializer, reference.name.text, reference.name.span⟩] else [])) := by
    simp only [readVariable, yields_bind, yields_get, yields_reportIf, yields_lookUp, yields_pure]
    exact ⟨_, _, ⟨rfl, rfl⟩, (), _, rfl, _, _, ⟨rfl, rfl⟩, rfl, rfl⟩
  refine ⟨_, _, rfl, shadow, ?_, ?_⟩
  · have implied := less reference.name.text
    cases here : inOwnInitializer (beside before globals errors) reference.name.text with
    | false => simp
    | true => simp [implied here]
  · simp only [List.mem_singleton, forall_eq]
    cases inOwnInitializer (beside before globals errors) reference.name.text <;>
      cases inOwnInitializer before reference.name.text <;> simp

theorem runs_readSuperclass {className : Name} {superclass found : Option Reference}
    (yields : Yields (readSuperclass className superclass) before found after)
    (alike : Alike before globals) :
    Runs globals (readSuperclass className superclass) before found after := by
  cases superclass with
  | none =>
      obtain ⟨rfl, rfl⟩ := yields_pure.mp yields
      exact runs_pure _ _
  | some reference =>
      simp only [readSuperclass, yields_bind, yields_modify, yields_openScope,
        yields_pure] at yields
      obtain ⟨_, reported, reports, _, _, rfl, bound, _, reads, _, _, rfl, rfl, rfl⟩ := yields
      have alikeReported : Alike reported globals := alike.quiet (quiet_reportIf _ _ _ _ reports)
      exact (runs_reportIf _ _ _ _ reports).bind ((runs_modify rfl fun _ => rfl).bind
        (((compares_readVariable reference).runs reads alikeReported).bind
          ((runs_openScope _ _).bind (runs_pure _ _))))

/-- The pass over a class behind its name. -/
def resolveHeritage (name : Name) (superclass : Option Reference)
    (methods : List FunctionDeclaration) (span : Span) (enclosing : ClassKind) : Pass Stmt := do
  let superclass ← readSuperclass name superclass
  openScope (.implicit "this")
  let methods ← resolveMethods methods
  closeScope
  if superclass.isSome then closeScope
  modify fun resolver => { resolver with classKind := enclosing }
  return .class name superclass methods span

theorem resolve_class (name : Name) (superclass : Option Reference)
    (methods : List FunctionDeclaration) (span : Span) :
    Stmt.resolve (.class name superclass methods span) = (do
      let resolver ← get
      modify fun resolver => { resolver with classKind := .base }
      declare name
      define name
      resolveHeritage name superclass methods span resolver.classKind) := by
  rw [Stmt.resolve]
  rfl

section

variable {name : Name} {superclass : Option Reference} {methods : List FunctionDeclaration}
  {statements : List Stmt} {span : Span} {enclosing : ClassKind} {found : Stmt}

theorem runs_resolveHeritage
    (runsMethods : ∀ ⦃globals : Table Bool⦄ ⦃before after : Resolver⦄
      ⦃found : List FunctionDeclaration⦄, Yields (resolveMethods methods) before found after →
      Runs globals (resolveMethods methods) before found after)
    (yields : Yields (resolveHeritage name superclass methods span enclosing) before found after)
    (alike : Alike before globals) :
    Runs globals (resolveHeritage name superclass methods span enclosing) before found after := by
  simp only [resolveHeritage, yields_bind, yields_openScope, yields_closeScope] at yields
  obtain ⟨bound, _, inherits, _, _, rfl, _, _, binds, _, _, rfl, restores⟩ := yields
  refine (runs_readSuperclass inherits alike).bind ((runs_openScope _ _).bind
    ((runsMethods binds).bind ((runs_closeScope _).bind ?_)))
  split at restores
  · next present =>
      simp only [yields_bind, yields_closeScope, yields_modify, yields_pure] at restores
      obtain ⟨_, _, rfl, _, _, rfl, rfl, rfl⟩ := restores
      simp only [present, if_true]
      exact (runs_closeScope _).bind ((runs_modify rfl fun _ => rfl).bind (runs_pure _ _))
  · next absent =>
      simp only [yields_bind, yields_modify, yields_pure] at restores
      obtain ⟨_, _, rfl, rfl, rfl⟩ := restores
      simp only [absent]
      exact (runs_modify rfl fun _ => rfl).bind (runs_pure _ _)

theorem runs_block
    (runsBody : ∀ ⦃globals : Table Bool⦄ ⦃before after : Resolver⦄ ⦃found : List Stmt⦄,
      Yields (resolveStmts statements) before found after → before.scopes ≠ [] →
      Runs globals (resolveStmts statements) before found after)
    (yields : Yields (Stmt.resolve (.block statements span)) before found after) :
    Runs globals (Stmt.resolve (.block statements span)) before found after := by
  simp only [Stmt.resolve, yields_bind, yields_openScope, yields_closeScope, yields_pure] at yields
  obtain ⟨_, _, rfl, _, _, yieldsBody, _, _, rfl, rfl, rfl⟩ := yields
  exact (runs_openScope [] before).bind ((runsBody yieldsBody (by simp)).bind
    ((runs_closeScope _).bind (runs_pure _ _)))

end

/-! ## Trees -/

-- Everywhere in a scope the tables make no difference. Outside of all scopes they make
-- one to expressions, so that these are compared under any two tables. A lambda opens a
-- scope, and its body is back among the statements.
mutual

theorem compares_resolve : (expr : Expr) → Compares expr.resolve expr.reads
  | .literal _ _ => .pure _
  | .grouping inner _ => (compares_resolve inner).map fun _ => .pure _
  | .variable reference => (compares_readVariable reference).map fun _ => .pure _
  | .assign _ value _ =>
      (compares_resolve value).map fun _ =>
        Compares.map (.of_runs (quiet_lookUp _ _) fun _ _ _ _ yields => runs_lookUp _ _ yields)
          fun _ => .pure _
  | .unary _ operand _ => (compares_resolve operand).map fun _ => .pure _
  | .binary _ left right _ =>
      (compares_resolve left).bind fun _ => (compares_resolve right).map fun _ => .pure _
  | .logical _ left right _ =>
      (compares_resolve left).bind fun _ => (compares_resolve right).map fun _ => .pure _
  | .call callee arguments _ =>
      (compares_resolve callee).bind fun _ => (compares_resolveExprs arguments).map fun _ => .pure _
  | .get object _ => (compares_resolve object).map fun _ => .pure _
  | .set object _ value _ =>
      (compares_resolve value).bind fun _ => (compares_resolve object).map fun _ => .pure _
  | .this address span =>
      Compares.map (.of_runs (quiet_readThis address span) fun _ _ _ _ yields =>
        runs_readThis address span yields) fun _ => .pure _
  | .super address _ span =>
      Compares.map (.of_runs (quiet_readSuper address span) fun _ _ _ _ yields =>
        runs_readSuper address span yields) fun _ => .pure _
  | .lambda function =>
      Compares.map (.of_runs (quiet_resolveFunction .function function) fun _ _ _ _ yields =>
        runs_resolveFunction .function function yields) fun _ => .pure _

theorem compares_resolveExprs : (exprs : List Expr) →
    Compares (resolveExprs exprs) (readsOfExprs exprs)
  | [] => .pure _
  | expr :: rest =>
      (compares_resolve expr).bind fun _ => (compares_resolveExprs rest).map fun _ => .pure _

theorem compares_resolveOptionalExpr : (expr : Option Expr) →
    Compares (resolveOptionalExpr expr) (readsOfOptionalExpr expr)
  | none => .pure _
  | some expr => (compares_resolve expr).map fun _ => .pure _

theorem runs_resolve : (stmt : Stmt) →
    ∀ ⦃globals : Table Bool⦄ ⦃before after : Resolver⦄ ⦃found : Stmt⦄,
    Yields stmt.resolve before found after → before.scopes ≠ [] →
    Runs globals stmt.resolve before found after
  | .expression value _ =>
      fun _ _ _ _ yields =>
        Compares.runs_inside ((compares_resolve value).map fun _ => .pure _) yields
  | .print value _ =>
      fun _ _ _ _ yields =>
        Compares.runs_inside ((compares_resolve value).map fun _ => .pure _) yields
  | .var name initializer _ => by
      intro globals before after found yields inside
      simp only [Stmt.resolve, yields_bind, yields_pure] at yields
      obtain ⟨_, _, declares, _, _, yieldsInitializer, _, _, defines, rfl, rfl⟩ := yields
      have declared := (steady_declare name declares).inside inside
      have initialized :=
        (quiet_resolveOptionalExpr initializer yieldsInitializer).steady.inside declared
      exact (runs_declare name declares inside).bind
        (((compares_resolveOptionalExpr initializer).runs_inside yieldsInitializer declared).bind
          ((runs_define name defines initialized).bind (runs_pure _ _)))
  | .block statements _ => fun _ _ _ _ yields _ => runs_block (runs_resolveStmts statements) yields
  | .conditional condition thenBranch elseBranch _ => by
      intro globals before after found yields inside
      simp only [Stmt.resolve, yields_bind, yields_pure] at yields
      obtain ⟨_, _, yieldsCondition, _, _, yieldsThen, _, _, yieldsElse, rfl, rfl⟩ := yields
      have tested := (quiet_resolve condition yieldsCondition).steady.inside inside
      have chosen := (steady_resolve thenBranch yieldsThen).inside tested
      exact ((compares_resolve condition).runs_inside yieldsCondition inside).bind
        ((runs_resolve thenBranch yieldsThen tested).bind
          ((runs_resolveOptionalStmt elseBranch yieldsElse chosen).bind (runs_pure _ _)))
  | .loop condition body increment _ => by
      intro globals before after found yields inside
      simp only [Stmt.resolve, yields_bind, yields_modify, yields_pure] at yields
      obtain ⟨_, tested, yieldsCondition, _, _, rfl, _, reached, yieldsBody, _, _, rfl, _, _,
        yieldsIncrement, rfl, rfl⟩ := yields
      have insideTested := (quiet_resolve condition yieldsCondition).steady.inside inside
      have insideReached : reached.scopes ≠ [] :=
        (steady_resolve body yieldsBody).inside insideTested
      have comparesIncrement := compares_resolveOptionalExpr increment
      exact ((compares_resolve condition).runs_inside yieldsCondition inside).bind
        ((runs_modify rfl fun _ => rfl).bind
          ((runs_resolve body yieldsBody insideTested).bind
            ((runs_modify rfl fun _ => rfl).bind
              ((comparesIncrement.runs_inside yieldsIncrement insideReached).bind
                (runs_pure _ _)))))
  | .function declaration _ => by
      intro globals before after found yields inside
      simp only [Stmt.resolve, yields_bind, yields_pure] at yields
      obtain ⟨_, _, declares, _, _, defines, _, _, yieldsFunction, rfl, rfl⟩ := yields
      have declared := (steady_declare declaration.name declares).inside inside
      exact (runs_declare _ declares inside).bind ((runs_define _ defines declared).bind
        ((runs_resolveFunction .function declaration yieldsFunction).bind (runs_pure _ _)))
  | .return value span => by
      intro globals before after found yields inside
      simp only [Stmt.resolve, yields_bind, yields_pure] at yields
      obtain ⟨_, _, checks, _, _, yieldsValue, rfl, rfl⟩ := yields
      have checked := (quiet_checkReturn value.isSome span checks).steady.inside inside
      have compares := compares_resolveOptionalExpr value
      exact (runs_checkReturn value.isSome span checks).bind
        ((compares.runs_inside yieldsValue checked).bind (runs_pure _ _))
  | .class name superclass methods span => by
      intro globals before after found yields inside
      rw [resolve_class] at yields ⊢
      simp only [yields_bind, yields_get, yields_modify] at yields
      obtain ⟨_, _, ⟨rfl, rfl⟩, _, _, rfl, _, _, declares, _, _, defines, inherits⟩ := yields
      have declared := (steady_declare name declares).inside inside
      have defined := (steady_define name defines).inside declared
      exact runs_get_bind (fun _ => rfl) ((runs_modify rfl fun _ => rfl).bind
        ((runs_declare name declares inside).bind ((runs_define name defines declared).bind
          (runs_resolveHeritage (runs_resolveMethods methods) inherits (.of_inside _ defined)))))
  | .break span => by
      intro globals before after found yields _
      simp only [Stmt.resolve, yields_bind, yields_pure] at yields
      obtain ⟨_, _, checks, rfl, rfl⟩ := yields
      exact (runs_checkJump _ _ span checks).bind (runs_pure _ _)
  | .continue span => by
      intro globals before after found yields _
      simp only [Stmt.resolve, yields_bind, yields_pure] at yields
      obtain ⟨_, _, checks, rfl, rfl⟩ := yields
      exact (runs_checkJump _ _ span checks).bind (runs_pure _ _)

theorem runs_resolveOptionalStmt : (stmt : Option Stmt) →
    ∀ ⦃globals : Table Bool⦄ ⦃before after : Resolver⦄ ⦃found : Option Stmt⦄,
    Yields (resolveOptionalStmt stmt) before found after → before.scopes ≠ [] →
    Runs globals (resolveOptionalStmt stmt) before found after
  | none => by
      intro globals before after found yields _
      obtain ⟨rfl, rfl⟩ := yields_pure.mp yields
      exact runs_pure _ _
  | some stmt => by
      intro globals before after found yields inside
      simp only [resolveOptionalStmt, yields_bind, yields_pure] at yields
      obtain ⟨_, _, yieldsStmt, rfl, rfl⟩ := yields
      exact (runs_resolve stmt yieldsStmt inside).bind (runs_pure _ _)

theorem runs_resolveStmts : (stmts : List Stmt) →
    ∀ ⦃globals : Table Bool⦄ ⦃before after : Resolver⦄ ⦃found : List Stmt⦄,
    Yields (resolveStmts stmts) before found after → before.scopes ≠ [] →
    Runs globals (resolveStmts stmts) before found after
  | [] => by
      intro globals before after found yields _
      obtain ⟨rfl, rfl⟩ := yields_pure.mp yields
      exact runs_pure _ _
  | stmt :: rest => by
      intro globals before after found yields inside
      simp only [resolveStmts, yields_bind, yields_pure] at yields
      obtain ⟨_, _, yieldsFirst, _, _, yieldsRest, rfl, rfl⟩ := yields
      have between := (steady_resolve stmt yieldsFirst).inside inside
      exact (runs_resolve stmt yieldsFirst inside).bind
        ((runs_resolveStmts rest yieldsRest between).bind (runs_pure _ _))

/-- A function opens a scope, so that globals make no difference even at top level. -/
theorem runs_resolveFunction (kind : FunctionKind) : (function : FunctionDeclaration) →
    ∀ ⦃globals : Table Bool⦄ ⦃before after : Resolver⦄ ⦃found : FunctionDeclaration⦄,
    Yields (resolveFunction kind function) before found after →
    Runs globals (resolveFunction kind function) before found after
  | ⟨name, parameters, body, isGetter⟩ => by
      intro globals before after found yields
      simp only [resolveFunction, yields_bind, yields_get, yields_modify, yields_openScope,
        yields_closeScope, yields_pure] at yields
      obtain ⟨_, _, ⟨rfl, rfl⟩, _, _, rfl, _, _, rfl, _, _, declares, _, _, yieldsBody, _, _, rfl,
        _, _, rfl, rfl, rfl⟩ := yields
      have declared := (steady_declareParameters parameters declares).inside (by simp)
      exact runs_get_bind (fun _ => rfl) ((runs_modify rfl fun _ => rfl).bind
        ((runs_openScope [] _).bind ((runs_declareParameters parameters declares (by simp)).bind
          ((runs_resolveStmts body yieldsBody declared).bind ((runs_closeScope _).bind
            ((runs_modify rfl fun _ => rfl).bind (runs_pure _ _)))))))

theorem runs_resolveMethods : (methods : List FunctionDeclaration) →
    ∀ ⦃globals : Table Bool⦄ ⦃before after : Resolver⦄ ⦃found : List FunctionDeclaration⦄,
    Yields (resolveMethods methods) before found after →
    Runs globals (resolveMethods methods) before found after
  | [] => by
      intro globals before after found yields
      obtain ⟨rfl, rfl⟩ := yields_pure.mp yields
      exact runs_pure _ _
  | method :: rest => by
      intro globals before after found yields
      simp only [resolveMethods, yields_bind, yields_pure] at yields
      obtain ⟨_, _, yieldsFirst, _, _, yieldsRest, rfl, rfl⟩ := yields
      exact (runs_resolveFunction _ method yieldsFirst).bind
        ((runs_resolveMethods rest yieldsRest).bind (runs_pure _ _))

end

end Binding

end Lox
