import Lox.Proofs.Binding.Placement

/-!
Contract: the pass over names does what the regions around each place say.

From a resolver that stands at a place, an expression gets the addresses of its place and
reports the errors of its occurrences, and all else is left as it was (`Follows`). A
statement also moves the resolver on by what it declares (`Moves`). Both compose along the
order of the occurrences, so that nothing is left of scopes, kinds and counters.

Main statements: `follows_resolve` and `moves_resolve`.

Owns: the pass as a function of tree and place. Does not own: sequences of programs.
-/

set_option autoImplicit false

namespace Lox

namespace Binding

variable {α β : Type} {around between behind : Regions} {first : Pass α} {next : α → Pass β}
  {value : α} {result : β} {occurrences others : List Occurrence}

/-! ## Steps -/

/-- From a resolver that stands at the place, the pass finds the value and adds the errors
of the occurrences. -/
def Follows (around : Regions) (pass : Pass α) (value : α) (occurrences : List Occurrence) :
    Prop :=
  ∀ ⦃before after : Resolver⦄ ⦃found : α⦄, Stands around before →
    Yields pass before found after → found = value ∧
      after =
        { before with errors := before.errors ++ occurrences.flatMap Occurrence.errors }

/-- From a resolver that stands at one place, the pass finds the value, adds the errors of
the occurrences and leaves a resolver that stands at the other place. -/
def Moves (around behind : Regions) (pass : Pass α) (value : α)
    (occurrences : List Occurrence) : Prop :=
  ∀ ⦃before after : Resolver⦄ ⦃found : α⦄, Stands around before →
    Yields pass before found after → found = value ∧ Stands behind after ∧
      after.errors = before.errors ++ occurrences.flatMap Occurrence.errors

theorem Follows.moves (follows : Follows around first value occurrences) :
    Moves around around first value occurrences := by
  intro before after found stands yields
  obtain ⟨rfl, rfl⟩ := follows stands yields
  exact ⟨rfl, stands.report _, rfl⟩

theorem Follows.pure (around : Regions) (value : α) :
    Follows around (Pure.pure value) value [] := by
  intro before after found _ yields
  obtain ⟨rfl, rfl⟩ := yields_pure.mp yields
  exact ⟨rfl, by simp⟩

theorem Follows.bind (one : Follows around first value occurrences)
    (two : Follows around (next value) result others) :
    Follows around (first >>= next) result (occurrences ++ others) := by
  intro before after found stands yields
  obtain ⟨middleValue, middle, yieldsFirst, yieldsNext⟩ := yields_bind.mp yields
  obtain ⟨rfl, rfl⟩ := one stands yieldsFirst
  obtain ⟨same, rfl⟩ := two (stands.report _) yieldsNext
  exact ⟨same, by simp⟩

theorem Moves.bind (one : Moves around between first value occurrences)
    (two : Moves between behind (next value) result others) :
    Moves around behind (first >>= next) result (occurrences ++ others) := by
  intro before after found stands yields
  obtain ⟨middleValue, middle, yieldsFirst, yieldsNext⟩ := yields_bind.mp yields
  obtain ⟨rfl, standsMiddle, errors⟩ := one stands yieldsFirst
  obtain ⟨same, standsAfter, further⟩ := two standsMiddle yieldsNext
  refine ⟨same, standsAfter, ?_⟩
  rw [further, errors, List.append_assoc, List.flatMap_append]

/-- What is found is only put into a tree. -/
theorem Follows.map {wrap : α → β} (follows : Follows around first value occurrences) :
    Follows around (first >>= fun found => Pure.pure (wrap found)) (wrap value) occurrences := by
  have both : Follows around (first >>= fun found => Pure.pure (wrap found)) (wrap value)
      (occurrences ++ []) := follows.bind (Follows.pure around (wrap value))
  rwa [List.append_nil] at both

theorem Moves.map {wrap : α → β} (moves : Moves around behind first value occurrences) :
    Moves around behind (first >>= fun found => Pure.pure (wrap found)) (wrap value)
      occurrences := by
  have both : Moves around behind (first >>= fun found => Pure.pure (wrap found)) (wrap value)
      (occurrences ++ []) := moves.bind (Follows.pure behind (wrap value)).moves
  rwa [List.append_nil] at both

/-- A quiet step is known by its errors. -/
theorem Quiet.eq_of_errors {before after : Resolver} {more : List BindingError}
    (quiet : Quiet before after) (errors : after.errors = before.errors ++ more) :
    after = { before with errors := before.errors ++ more } := by
  obtain ⟨others, rfl⟩ := quiet
  rw [← errors]

/-! ## Names -/

theorem lookUp_eq {before after : Resolver} {name : String} {old found : Option Address}
    (placed : Placed around before) (yields : Yields (lookUp name old) before found after) :
    found = addressOr around.context name old ∧ after = before := by
  obtain ⟨rfl, rfl⟩ := yields_lookUp.mp yields
  exact ⟨by rw [address?_eq_addressIn, placed.context, addressOr], rfl⟩

theorem readVariable_eq {before after : Resolver} {reference found : Reference}
    (placed : Placed around before) (yields : Yields (readVariable reference) before found after) :
    found = reference.addressed around.context ∧
      after =
        { before with errors := before.errors ++ Occurrence.errors ⟨.read reference, around⟩ } := by
  simp only [readVariable, yields_bind, yields_get, yields_reportIf, yields_pure] at yields
  obtain ⟨_, _, ⟨rfl, rfl⟩, _, _, rfl, address, _, looksUp, rfl, rfl⟩ := yields
  obtain ⟨rfl, rfl⟩ := lookUp_eq (placed.change _ _) looksUp
  exact ⟨rfl, by simp only [Occurrence.errors_read, placed.pending]⟩

theorem follows_readVariable (around : Regions) (reference : Reference) :
    Follows around (readVariable reference) (reference.addressed around.context)
      [⟨.read reference, around⟩] := by
  intro before after found stands yields
  rw [List.flatMap_singleton]
  exact readVariable_eq stands.toPlaced yields

/-- The target of an assignment, which breaks no rule. -/
theorem follows_target (around : Regions) (reference : Reference) :
    Follows around (lookUp reference.name.text reference.address)
      (addressOr around.context reference.name.text reference.address)
      [⟨.assign reference, around⟩] := by
  intro before after found stands yields
  obtain ⟨rfl, rfl⟩ := lookUp_eq stands.toPlaced yields
  exact ⟨rfl, by simp [Occurrence.errors_assign]⟩

theorem follows_readThis (around : Regions) (address : Option Address) (span : Span) :
    Follows around (readThis address span)
      (if around.class?.isSome then addressOr around.context "this" address else address)
      [⟨.this address span, around⟩] := by
  intro before after found stands yields
  simp only [readThis, yields_bind, yields_get] at yields
  obtain ⟨_, _, ⟨rfl, rfl⟩, yields⟩ := yields
  simp only [List.flatMap_singleton, Occurrence.errors_this]
  by_cases outside : around.class? = none
  · rw [if_pos (stands.inClass_iff.mpr outside)] at yields
    simp only [yields_bind, yields_report, yields_pure] at yields
    obtain ⟨_, _, rfl, rfl, rfl⟩ := yields
    simp [outside]
  · rw [if_neg (mt stands.inClass_iff.mp outside)] at yields
    obtain ⟨rfl, rfl⟩ := lookUp_eq stands.toPlaced yields
    simp [outside, Option.isSome_iff_ne_none]

theorem follows_readSuper (around : Regions) (address : Option Address) (span : Span) :
    Follows around (readSuper address span) (addressOr around.context "super" address)
      [⟨.super address span, around⟩] := by
  intro before after found stands yields
  simp only [readSuper, yields_bind, yields_get] at yields
  obtain ⟨_, _, ⟨rfl, rfl⟩, yields⟩ := yields
  rw [stands.classKind] at yields
  simp only [List.flatMap_singleton, Occurrence.errors_super]
  cases innermost : around.class? with
  | none =>
      simp only [innermost, kindOfClass, yields_bind, yields_report] at yields
      obtain ⟨_, _, rfl, looksUp⟩ := yields
      obtain ⟨rfl, rfl⟩ := lookUp_eq (stands.report _).toPlaced looksUp
      simp
  | some inherits =>
      cases inherits with
      | false =>
          simp only [innermost, kindOfClass, yields_bind, yields_report] at yields
          obtain ⟨_, _, rfl, looksUp⟩ := yields
          obtain ⟨rfl, rfl⟩ := lookUp_eq (stands.report _).toPlaced looksUp
          simp
      | true =>
          simp only [innermost, kindOfClass] at yields
          obtain ⟨rfl, rfl⟩ := lookUp_eq stands.toPlaced yields
          simp

theorem follows_checkReturn (around : Regions) (hasValue : Bool) (span : Span) :
    Follows around (checkReturn hasValue span) () [⟨.return hasValue span, around⟩] := by
  intro before after found stands yields
  simp only [checkReturn, yields_bind, yields_get, yields_reportIf] at yields
  obtain ⟨_, _, ⟨rfl, rfl⟩, _, _, rfl, rfl⟩ := yields
  simp only [List.flatMap_singleton, Occurrence.errors_return, ← stands.outside,
    ← stands.initializer, List.append_assoc, beq_iff_eq, Bool.and_eq_true, true_and]

theorem follows_break (around : Regions) (span : Span) :
    Follows around (checkJump .breakOutsideLoop "break" span) () [⟨.break span, around⟩] := by
  intro before after found stands yields
  simp only [checkJump, yields_bind, yields_get, yields_reportIf] at yields
  obtain ⟨_, _, ⟨rfl, rfl⟩, rfl⟩ := yields
  simp only [List.flatMap_singleton, Occurrence.errors_break, ← stands.loopDepth, beq_iff_eq,
    true_and]

theorem follows_continue (around : Regions) (span : Span) :
    Follows around (checkJump .continueOutsideLoop "continue" span) ()
      [⟨.continue span, around⟩] := by
  intro before after found stands yields
  simp only [checkJump, yields_bind, yields_get, yields_reportIf] at yields
  obtain ⟨_, _, ⟨rfl, rfl⟩, rfl⟩ := yields
  simp only [List.flatMap_singleton, Occurrence.errors_continue, ← stands.loopDepth, beq_iff_eq,
    true_and]

/-- What comes behind a name that is declared and ready at once. -/
theorem Moves.announce (atStatement : around.AtStatement) (name : Name)
    (moves : Moves (around.declare name.text) behind first value occurrences) :
    Moves around behind (do declare name; define name; first) value
      (⟨.declaration name, around⟩ :: occurrences) := by
  intro before after found stands yields
  simp only [yields_bind] at yields
  obtain ⟨_, _, declares, _, announced, defines, yields⟩ := yields
  obtain ⟨standsAnnounced, reported⟩ :=
    stands.announce atStatement (yields_bind.mpr ⟨_, _, declares, defines⟩)
  obtain ⟨rfl, standsAfter, errors⟩ := moves standsAnnounced yields
  refine ⟨rfl, standsAfter, ?_⟩
  rw [errors, reported, List.append_assoc, List.flatMap_cons]

theorem moves_declareParameters (atStatement : around.AtStatement) (parameters : List Name) :
    Moves around (around.declareAll (parameters.map Name.text)) (declareParameters parameters) ()
      (occurrencesOfParameters around parameters) := by
  induction parameters generalizing around with
  | nil => exact (Follows.pure around ()).moves
  | cons parameter rest inductionHypothesis =>
      have others := inductionHypothesis (atStatement.declare parameter.text)
      exact others.announce atStatement parameter

/-! ## Regions -/

theorem follows_block {statements found : List Stmt} {span : Span}
    (moves : Moves (.block [] :: around) behind (resolveStmts statements) found occurrences) :
    Follows around (Stmt.resolve (.block statements span)) (.block found span) occurrences := by
  intro before after result stands yields
  simp only [Stmt.resolve, yields_bind, yields_openScope, yields_closeScope, yields_pure] at yields
  obtain ⟨_, _, rfl, _, inside, yieldsBody, _, _, rfl, rfl, rfl⟩ := yields
  obtain ⟨rfl, _, errors⟩ := moves stands.block yieldsBody
  exact ⟨rfl, (steady_resolveStmts statements yieldsBody).closeBlock.eq_of_errors errors⟩

theorem follows_function {kind : FunctionKind} {isInitializer : Bool} (inside : kind ≠ .none)
    (initializer : kind = .initializer ↔ isInitializer = true) {name : Name}
    {parameters : List Name} {body found : List Stmt} {isGetter : Bool}
    (moves : Moves (.function isInitializer (parameters.map Name.text) :: around) behind
      (resolveStmts body) found occurrences) :
    Follows around (resolveFunction kind ⟨name, parameters, body, isGetter⟩)
      ⟨name, parameters, found, isGetter⟩
      (occurrencesOfParameters (.function isInitializer [] :: around) parameters ++
        occurrences) := by
  intro before after result stands yields
  have quiet := quiet_resolveFunction kind _ yields
  simp only [resolveFunction, yields_bind, yields_get, yields_modify, yields_openScope,
    yields_closeScope, yields_pure] at yields
  obtain ⟨_, _, ⟨rfl, rfl⟩, _, _, rfl, _, _, rfl, _, entered, declares, _, done, yieldsBody,
    _, _, rfl, _, _, rfl, rfl, rfl⟩ := yields
  have parametersMove := moves_declareParameters (.function isInitializer [] around) parameters
  rw [Regions.declareAll_function, List.nil_append] at parametersMove
  have both : Moves (.function isInitializer [] :: around) behind
      (do declareParameters parameters; resolveStmts body) found
      (occurrencesOfParameters (.function isInitializer [] :: around) parameters ++
        occurrences) := parametersMove.bind moves
  obtain ⟨rfl, _, errors⟩ :=
    both (stands.function inside initializer) (yields_bind.mpr ⟨_, _, declares, yieldsBody⟩)
  exact ⟨rfl, quiet.eq_of_errors errors⟩

theorem moves_var (atStatement : around.AtStatement) {name : Name}
    {initializer found : Option Expr} {span : Span}
    (follows : Follows (.initializer name.text around.declared :: around.declare name.text)
      (resolveOptionalExpr initializer) found occurrences) :
    Moves around (around.declare name.text) (Stmt.resolve (.var name initializer span))
      (.var name found span) (⟨.declaration name, around⟩ :: occurrences) := by
  intro before after result stands yields
  simp only [Stmt.resolve, yields_bind, yields_pure] at yields
  obtain ⟨_, declared, declares, _, initialized, initializes, _, _, defines, rfl, rfl⟩ := yields
  obtain ⟨inside, reported⟩ := stands.declare atStatement declares
  obtain ⟨rfl, rfl⟩ := follows inside initializes
  have member : name.text ∈ (around.declare name.text).declared := by
    simp [atStatement.declared_declare]
  obtain ⟨behind, errors⟩ :=
    (inside.report _).define (atStatement.declare name.text) member defines
  refine ⟨rfl, behind, ?_⟩
  rw [errors, reported, List.append_assoc, List.flatMap_cons]

theorem moves_loop {condition boundCondition : Expr} {body boundBody : Stmt}
    {increment boundIncrement : Option Expr} {span : Span} {more : List Occurrence}
    (atStatement : around.AtStatement) (atStatementBehind : behind.AtStatement)
    (same : behind.inLoop = around.inLoop)
    (tests : Follows around condition.resolve boundCondition occurrences)
    (repeats : Moves (.loop :: around) (.loop :: behind) body.resolve boundBody others)
    (increments : Follows behind (resolveOptionalExpr increment) boundIncrement more) :
    Moves around behind (Stmt.resolve (.loop condition body increment span))
      (.loop boundCondition boundBody boundIncrement span)
      (occurrences ++ (others ++ more)) := by
  intro before after result stands yields
  simp only [Stmt.resolve, yields_bind, yields_modify, yields_pure] at yields
  obtain ⟨_, _, yieldsCondition, _, _, rfl, _, reached, yieldsBody, _, _, rfl, _, _,
    yieldsIncrement, rfl, rfl⟩ := yields
  obtain ⟨rfl, rfl⟩ := tests stands yieldsCondition
  have standsTested := stands.report
    (before.errors ++ occurrences.flatMap Occurrence.errors)
  obtain ⟨rfl, inside, errors⟩ := repeats (standsTested.loop atStatement) yieldsBody
  have outside : before.loopDepth = 0 ↔ behind.inLoop = false := by
    rw [stands.loopDepth, same]
  have left := inside.leaveLoop atStatementBehind (steady_resolve body yieldsBody).loopDepth outside
  obtain ⟨rfl, rfl⟩ := increments left yieldsIncrement
  refine ⟨rfl, left.report _, ?_⟩
  simp only [errors, List.flatMap_append, List.append_assoc]

/-! ## Classes -/

/-- The superclass of a class leaves the place in front of the methods. -/
theorem inherits_of_placed {before after : Resolver} {className : Name}
    {superclass found : Option Reference} (placed : Placed around before)
    (atStatement : around.AtStatement) (base : before.classKind = .base)
    (yields : Yields (readSuperclass className superclass) before found after) :
    found = superclass.map (Reference.addressed around.context) ∧
      Stands (.methods superclass.isSome :: around)
        { after with scopes := .implicit "this" :: after.scopes } ∧
      after =
        { before with
          scopes := (superclass.map fun _ => Scope.implicit "super").toList ++ before.scopes
          classKind := after.classKind
          errors := before.errors ++
            (occurrencesOfSuperclass around className superclass).flatMap Occurrence.errors } := by
  cases superclass with
  | none =>
      obtain ⟨rfl, rfl⟩ := yields_pure.mp yields
      refine ⟨rfl, ?_, by simp [occurrencesOfSuperclass]⟩
      have stands := placed.base
      rw [← base] at stands
      exact stands
  | some reference =>
      simp only [readSuperclass, yields_bind, yields_reportIf, yields_modify, yields_openScope,
        yields_pure] at yields
      obtain ⟨_, _, rfl, _, _, rfl, bound, _, reads, _, _, rfl, rfl, rfl⟩ := yields
      obtain ⟨rfl, rfl⟩ := readVariable_eq (placed.change _ _) reads
      refine ⟨rfl, (placed.change _ _).subclass, ?_⟩
      simp [occurrencesOfSuperclass, Occurrence.errors_superclass, Occurrence.errors_read,
        atStatement.initializing?_eq_none]

theorem moves_class {name : Name} {superclass : Option Reference}
    {methods found : List FunctionDeclaration} {span : Span}
    (atStatement : around.AtStatement)
    (follows : Follows (.methods superclass.isSome :: around.declare name.text)
      (resolveMethods methods) found occurrences) :
    Moves around (around.declare name.text) (Stmt.resolve (.class name superclass methods span))
      (.class name (superclass.map (Reference.addressed (around.context.add name.text))) found span)
      (⟨.declaration name, around⟩ ::
        (occurrencesOfSuperclass (around.declare name.text) name superclass ++ occurrences)) := by
  intro before after result stands yields
  obtain ⟨boundSuperclass, boundMethods, rfl,
    ⟨announced, inherited, done, declares, inherits, binds, rfl⟩⟩ := yields_class yields
  have named := (steady_declare name).bind (fun _ => steady_define name) declares
  rw [← atStatement.context_declare]
  obtain ⟨placed, reported⟩ :=
    (stands.toPlaced.change .base before.errors).announce atStatement declares
  obtain ⟨rfl, inside, same⟩ :=
    inherits_of_placed placed (atStatement.declare name.text) named.classKind inherits
  obtain ⟨rfl, rfl⟩ := follows inside binds
  refine ⟨rfl, ⟨?_, ?_⟩, ?_⟩
  · rw [same]
    cases superclass with
    | none => exact placed.change _ _
    | some _ => exact placed.change _ _
  · rw [Regions.class?_declare]
    exact stands.classKind
  · rw [same]
    simp [reported]

/-! ## Trees -/

-- The induction follows the trees; the regions around them change with each scope that is
-- opened. Statements need a place where names may be declared, expressions may stand
-- anywhere, and a lambda leads back to statements through the scope that it opens.
mutual

theorem follows_resolve (around : Regions) : (expr : Expr) →
    Follows around expr.resolve (expr.addressed around.context around.class?.isSome)
      (expr.occurrences around)
  | .literal _ _ => .pure _ _
  | .grouping inner _ => (follows_resolve around inner).map
  | .variable reference => (follows_readVariable around reference).map
  | .assign target value _ =>
      (follows_resolve around value).bind (follows_target around target).map
  | .unary _ operand _ => (follows_resolve around operand).map
  | .binary _ left right _ =>
      (follows_resolve around left).bind (follows_resolve around right).map
  | .logical _ left right _ =>
      (follows_resolve around left).bind (follows_resolve around right).map
  | .call callee arguments _ =>
      (follows_resolve around callee).bind (follows_resolveExprs around arguments).map
  | .get object _ => (follows_resolve around object).map
  | .set object _ value _ =>
      (follows_resolve around value).bind (follows_resolve around object).map
  | .this address span => (follows_readThis around address span).map
  | .super address _ span => (follows_readSuper around address span).map
  | .lambda function =>
      (follows_resolveFunction around .function false (by decide) (by decide) function).map

theorem follows_resolveExprs (around : Regions) : (exprs : List Expr) →
    Follows around (resolveExprs exprs)
      (addressedExprs around.context around.class?.isSome exprs) (occurrencesOfExprs around exprs)
  | [] => .pure _ _
  | expr :: rest => (follows_resolve around expr).bind (follows_resolveExprs around rest).map

theorem follows_resolveOptionalExpr (around : Regions) : (expr : Option Expr) →
    Follows around (resolveOptionalExpr expr)
      (addressedOptionalExpr around.context around.class?.isSome expr)
      (occurrencesOfOptionalExpr around expr)
  | none => .pure _ _
  | some expr => (follows_resolve around expr).map

theorem moves_resolve {around : Regions} (atStatement : around.AtStatement) : (stmt : Stmt) →
    Moves around (around.declareAll stmt.declares) stmt.resolve
      (stmt.addressed around.context around.class?.isSome) (stmt.occurrences around)
  | .expression value _ => (follows_resolve around value).map.moves
  | .print value _ => (follows_resolve around value).map.moves
  | .var name initializer _ => by
      have follows := follows_resolveOptionalExpr
        (.initializer name.text around.declared :: around.declare name.text) initializer
      rw [Regions.context, Regions.class?, atStatement.context_declare,
        Regions.class?_declare] at follows
      exact moves_var atStatement follows
  | .block statements _ =>
      (follows_block (moves_resolveStmts (.block [] around) statements)).moves
  | .conditional condition thenBranch elseBranch _ => by
      have second :=
        moves_resolveOptionalStmt (atStatement.declareAll thenBranch.declares) elseBranch
      rw [atStatement.context_declareAll, Regions.class?_declareAll,
        ← Regions.declareAll_append] at second
      exact (follows_resolve around condition).moves.bind
        ((moves_resolve atStatement thenBranch).bind second.map)
  | .loop condition body increment _ => by
      have repeats := moves_resolve (.loop atStatement) body
      rw [Regions.declareAll_loop] at repeats
      have increments :=
        follows_resolveOptionalExpr (around.declareAll body.declares) increment
      rw [atStatement.context_declareAll, Regions.class?_declareAll] at increments
      exact moves_loop atStatement (atStatement.declareAll body.declares)
        (Regions.inLoop_declareAll around body.declares) (follows_resolve around condition)
        repeats increments
  | .function declaration _ => by
      have inside := follows_resolveFunction (around.declare declaration.name.text) .function
        false (by decide) (by decide) declaration
      rw [atStatement.context_declare, Regions.class?_declare] at inside
      exact inside.map.moves.announce atStatement declaration.name
  | .return value span =>
      ((follows_checkReturn around value.isSome span).bind
        (follows_resolveOptionalExpr around value).map).moves
  | .class name superclass methods _ => by
      have inside := follows_resolveMethods
        (.methods superclass.isSome :: around.declare name.text) rfl methods
      rw [Regions.context, atStatement.context_declare] at inside
      exact moves_class atStatement inside
  | .break span => (follows_break around span).map.moves
  | .continue span => (follows_continue around span).map.moves

theorem moves_resolveOptionalStmt {around : Regions} (atStatement : around.AtStatement) :
    (stmt : Option Stmt) →
    Moves around (around.declareAll (declaresOfOptionalStmt stmt)) (resolveOptionalStmt stmt)
      (addressedOptionalStmt around.context around.class?.isSome stmt)
      (occurrencesOfOptionalStmt around stmt)
  | none => (Follows.pure _ _).moves
  | some stmt => (moves_resolve atStatement stmt).map

theorem moves_resolveStmts {around : Regions} (atStatement : around.AtStatement) :
    (stmts : List Stmt) →
    Moves around (around.declareAll (declaresOfStmts stmts)) (resolveStmts stmts)
      (addressedStmts around.context around.class?.isSome stmts) (occurrencesOfStmts around stmts)
  | [] => (Follows.pure _ _).moves
  | stmt :: rest => by
      have others := moves_resolveStmts (atStatement.declareAll stmt.declares) rest
      rw [atStatement.context_declareAll, Regions.class?_declareAll,
        ← Regions.declareAll_append] at others
      exact (moves_resolve atStatement stmt).bind others.map

theorem follows_resolveFunction (around : Regions) (kind : FunctionKind) (isInitializer : Bool)
    (inside : kind ≠ .none) (initializer : kind = .initializer ↔ isInitializer = true) :
    (function : FunctionDeclaration) →
    Follows around (resolveFunction kind function)
      (addressedFunction around.context around.class?.isSome function)
      (occurrencesOfFunction around isInitializer function)
  | ⟨_, parameters, body, _⟩ => by
      have moves := moves_resolveStmts
        (.function isInitializer (parameters.map Name.text) around) body
      rw [Regions.context_function] at moves
      exact follows_function inside initializer moves

theorem follows_resolveMethods (around : Regions) (inClass : around.class?.isSome = true) :
    (methods : List FunctionDeclaration) →
    Follows around (resolveMethods methods) (addressedFunctions around.context methods)
      (occurrencesOfMethods around methods)
  | [] => .pure _ _
  | method :: rest => by
      have kinds : methodKind method ≠ .none ∧
          (methodKind method = .initializer ↔ method.isInitializer = true) := by
        unfold methodKind
        cases method.isInitializer <;> decide
      have first := follows_resolveFunction around _ _ kinds.1 kinds.2 method
      rw [inClass] at first
      exact first.bind (follows_resolveMethods around inClass rest).map

end

end Binding

end Lox
