import Lox.Proofs.Binding.Globals

/-!
Contract: top-level statements under a table that holds more names.

At top level the pass declares globals, and reads a global in its own initializer only
where no statement before has declared it. So a resolver that knows more names finds
the same trees, declares the same globals and misses the complaints about such reads
of the names that it alone knows.

Main statement: `Overlays.resolve`, about one program.

Owns: tables that hold more names, and programs under them. Does not own: sessions.
-/

set_option autoImplicit false

namespace Lox

/-! ## Tables -/

namespace Table

variable {α : Type}

theorem find?_insert (table : Table α) (name other : String) (value : α) :
    (table.insert name value).find? other =
      if other = name then some value else table.find? other := by
  split
  · next same =>
      rw [same]
      exact table.find?_insert_self name value
  · next different => exact table.find?_insert_of_ne value different

theorem find?_insertIfNew (table : Table α) (name other : String) (value : α) :
    (table.insertIfNew name value).find? other =
      if other = name ∧ table.find? name = none then some value else table.find? other := by
  unfold insertIfNew contains
  cases present : table.find? name with
  | none => simp [find?_insert]
  | some old => simp

end Table

/-! ## Statements -/

/-- The reads of the global that the statement declares in its own initializer. -/
def Stmt.selfReads : Stmt → List String
  | .var name initializer _ => (readsOfOptionalExpr initializer).filter (· = name.text)
  | _ => []

/-- The globals that the statements declare. -/
def declaredBy (stmts : List Stmt) : List String :=
  stmts.flatMap fun stmt => stmt.declared?.toList

/-- The globals that are read in their own initializers and not declared before. -/
def selfReadsOf : List Stmt → List String
  | [] => []
  | stmt :: rest => stmt.selfReads ++ (selfReadsOf rest).filter (· ∉ stmt.declared?.toList)

namespace Binding

/-- No global waits for its initializer. -/
def Settled (globals : Table Bool) : Prop := ∀ name, globals.find? name ≠ some false

/-- The second table holds these names as well, and all of them are ready. -/
def Overlaid (names : List String) (globals others : Table Bool) : Prop :=
  ∀ name, others.find? name = if name ∈ names then some true else globals.find? name

variable {names declares : List String} {globals others : Table Bool}

theorem Overlaid.refl (globals : Table Bool) : Overlaid [] globals globals := by
  intro name
  simp

theorem Overlaid.trans {last : Table Bool} {more : List String}
    (first : Overlaid names globals others) (second : Overlaid more others last) :
    Overlaid (names ++ more) globals last := by
  intro name
  rw [second name, first name]
  by_cases early : name ∈ names <;> by_cases late : name ∈ more <;> simp [early, late]

theorem Overlaid.settled (overlaid : Overlaid names globals others) (settled : Settled globals) :
    Settled others := by
  intro name
  rw [overlaid name]
  split
  · simp
  · exact settled name

theorem overlaid_insert (globals : Table Bool) (name : String) :
    Overlaid [name] globals (globals.insert name true) := by
  intro other
  simp [Table.find?_insert]

/-- A name that is declared and defined. -/
theorem overlaid_announced (globals : Table Bool) (name : String) :
    Overlaid [name] globals ((globals.insertIfNew name false).insert name true) := by
  intro other
  by_cases same : other = name <;> simp [Table.find?_insert, Table.find?_insertIfNew, same]

/-- What is added to both tables keeps them apart by the same names. -/
theorem Overlaid.extend {globals' others' : Table Bool} (overlaid : Overlaid names globals others)
    (extended : Overlaid declares globals globals') (extended' : Overlaid declares others others') :
    Overlaid names globals' others' := by
  intro name
  rw [extended' name, extended name, overlaid name]
  by_cases early : name ∈ names <;> by_cases late : name ∈ declares <;> simp [early, late]

theorem Overlaid.find?_eq_none (overlaid : Overlaid names globals others) (name : String) :
    others.find? name = none ↔ name ∉ names ∧ globals.find? name = none := by
  rw [overlaid name]
  by_cases member : name ∈ names <;> simp [member]

/-! ## Passes at top level -/

/-- The resolver is at top level, and no global waits for its initializer. -/
structure Outside (resolver : Resolver) : Prop where
  scopes : resolver.scopes = []
  functionKind : resolver.functionKind = .none
  settled : Settled resolver.globals

variable {α β : Type} {before middle after : Resolver}

theorem Outside.alike (outside : Outside before) (settled : Settled globals) :
    Alike before globals := by
  intro name
  have ready := beq_eq_false_iff_ne.mpr (settled name)
  have readyBefore := beq_eq_false_iff_ne.mpr (outside.settled name)
  simp only [inOwnInitializer, outside.scopes, ready, readyBefore]

/-- From a resolver at top level that knows more names, the pass finds the same and
declares the same, and it adds some of the same errors. It adds all of them exactly if
each of the additional names in `selfReads` was known before. -/
def ComparesAtTop (pass : Pass α) (selfReads declares : List String) : Prop :=
  ∀ ⦃before after : Resolver⦄ ⦃found : α⦄, Yields pass before found after → Outside before →
    Outside after ∧ Overlaid declares before.globals after.globals ∧
      ∀ ⦃names : List String⦄ ⦃globals : Table Bool⦄, Overlaid names before.globals globals →
        ∀ errors, ∃ others more fewer, Overlaid names after.globals others ∧
          after.errors = before.errors ++ more ∧
          Yields pass (beside before globals errors) found (beside after others (errors ++ fewer)) ∧
          fewer.Sublist more ∧
          (fewer = more ↔
            ∀ name ∈ selfReads, name ∈ names → before.globals.find? name ≠ none)

theorem ComparesAtTop.bind {first : Pass α} {next : α → Pass β}
    {selfReads declares laterReads laterDeclares : List String}
    (one : ComparesAtTop first selfReads declares)
    (two : ∀ value, ComparesAtTop (next value) laterReads laterDeclares) :
    ComparesAtTop (first >>= next) (selfReads ++ laterReads.filter (· ∉ declares))
      (declares ++ laterDeclares) := by
  intro before after found yields outside
  obtain ⟨value, middle, yieldsFirst, yieldsNext⟩ := yields_bind.mp yields
  obtain ⟨outsideMiddle, declared, shadowsFirst⟩ := one yieldsFirst outside
  obtain ⟨outsideAfter, declaredLater, shadowsNext⟩ := two value yieldsNext outsideMiddle
  refine ⟨outsideAfter, declared.trans declaredLater, ?_⟩
  intro names globals overlaid errors
  obtain ⟨between, more, fewer, overlaidMiddle, extended, shadowFirst, part, same⟩ :=
    shadowsFirst overlaid errors
  obtain ⟨others, more', fewer', overlaidAfter, extended', shadowNext, part', same'⟩ :=
    shadowsNext overlaidMiddle (errors ++ fewer)
  refine ⟨others, more ++ more', fewer ++ fewer', overlaidAfter, ?_,
    yields_bind.mpr ⟨_, _, shadowFirst, ?_⟩, part.append part', ?_⟩
  · rw [extended', extended, List.append_assoc]
  · rw [← List.append_assoc]
    exact shadowNext
  · rw [append_eq_append_of_sublist part part', same, same', List.forall_mem_append]
    refine and_congr_right fun _ => ?_
    constructor
    · intro known name member stained
      obtain ⟨read, undeclared⟩ := List.mem_filter.mp member
      intro unknown
      exact known name read stained
        ((declared.find?_eq_none name).mpr ⟨of_decide_eq_true undeclared, unknown⟩)
    · intro known name read stained unknown
      obtain ⟨undeclared, unknownBefore⟩ := (declared.find?_eq_none name).mp unknown
      exact known name (List.mem_filter.mpr ⟨read, decide_eq_true undeclared⟩) stained unknownBefore

/-- A pass that keeps the globals, and to which they make no difference. -/
theorem ComparesAtTop.of_runs {pass : Pass α}
    (keeps : ∀ ⦃before after : Resolver⦄ ⦃found : α⦄, Yields pass before found after →
      Outside before → after.scopes = before.scopes ∧ after.functionKind = before.functionKind ∧
        after.globals = before.globals)
    (runs : ∀ ⦃globals : Table Bool⦄ ⦃before after : Resolver⦄ ⦃found : α⦄,
      Yields pass before found after → Alike before globals →
      Runs globals pass before found after) :
    ComparesAtTop pass [] [] := by
  intro before after found yields outside
  obtain ⟨scopes, functionKind, same⟩ := keeps yields outside
  refine ⟨⟨scopes.trans outside.scopes, functionKind.trans outside.functionKind,
    same ▸ outside.settled⟩, same ▸ Overlaid.refl _, ?_⟩
  intro names globals overlaid errors
  have settled := overlaid.settled outside.settled
  obtain ⟨more, extended, shadow⟩ := runs yields (outside.alike settled) errors
  exact ⟨globals, more, more, same ▸ overlaid, extended, shadow, List.Sublist.refl more, by simp⟩

theorem Compares.quietly {pass : Pass α} {reads : List String} (compares : Compares pass reads) :
    Quietly pass := by
  intro before after found yields
  obtain ⟨more, _, same, _⟩ := compares yields before.globals [] fun _ reads => reads
  exact ⟨more, same⟩

theorem Compares.atTop {pass : Pass α} {reads : List String} (compares : Compares pass reads) :
    ComparesAtTop pass [] [] := by
  refine .of_runs (fun _ _ _ yields _ => ?_) fun _ _ _ _ yields alike => compares.runs yields alike
  obtain ⟨more, rfl⟩ := compares.quietly yields
  exact ⟨rfl, rfl, rfl⟩

theorem ComparesAtTop.pure (value : α) : ComparesAtTop (Pure.pure value) [] [] :=
  (Compares.pure value).atTop

/-- What follows declares nothing. -/
theorem ComparesAtTop.map {first : Pass α} {next : α → Pass β} {selfReads declares : List String}
    (one : ComparesAtTop first selfReads declares)
    (two : ∀ value, ComparesAtTop (next value) [] []) :
    ComparesAtTop (first >>= next) selfReads declares := by
  have both := one.bind two
  rwa [List.filter_nil, List.append_nil, List.append_nil] at both

/-! ## Statements at top level -/

theorem yields_declare_top (name : Name) (resolver : Resolver) (top : resolver.scopes = []) :
    Yields (declare name) resolver ()
      { resolver with globals := resolver.globals.insertIfNew name.text false } := by
  simp only [declare, yields_bind, yields_get]
  refine ⟨resolver, resolver, ⟨rfl, rfl⟩, ?_⟩
  simp only [top]
  exact yields_set.mpr (top ▸ rfl)

theorem yields_define_top (name : Name) (resolver : Resolver) (top : resolver.scopes = []) :
    Yields (define name) resolver ()
      { resolver with globals := resolver.globals.insert name.text true } := by
  simp only [define, yields_modify, top]

/-- A name that is ready at once. -/
theorem comparesAtTop_announce (name : Name) :
    ComparesAtTop (do declare name; define name) [] [name.text] := by
  intro before after found yields outside
  obtain ⟨_, _, declares, defines⟩ := yields_bind.mp yields
  obtain ⟨_, rfl⟩ := declares.unique (yields_declare_top name before outside.scopes)
  obtain ⟨rfl, rfl⟩ := defines.unique (yields_define_top name _ outside.scopes)
  have declared := overlaid_announced before.globals name.text
  refine ⟨⟨outside.scopes, outside.functionKind, declared.settled outside.settled⟩, declared, ?_⟩
  intro names globals overlaid errors
  have declaredBeside := overlaid_announced globals name.text
  have declares := yields_declare_top name (beside before globals errors) outside.scopes
  have defines := yields_define_top name
    (beside before (globals.insertIfNew name.text false) errors) outside.scopes
  refine ⟨_, [], [], overlaid.extend declared declaredBeside, (List.append_nil _).symm,
    yields_bind.mpr ⟨(), _, declares, ?_⟩, .refl _, by simp⟩
  rw [List.append_nil]
  exact defines

theorem comparesAtTop_announced (name : Name) {next : Pass α}
    (rest : ComparesAtTop next [] []) :
    ComparesAtTop (do declare name; define name; next) [] [name.text] := by
  have both := (comparesAtTop_announce name).map fun _ => rest
  rwa [bind_assoc] at both

/-- Where a name was just declared, it alone may wait for its initializer. -/
theorem Outside.inOwnInitializer_declared (outside : Outside before) (name other : String) :
    inOwnInitializer { before with globals := before.globals.insertIfNew name false } other = true ↔
      other = name ∧ before.globals.find? name = none := by
  simp only [inOwnInitializer, outside.scopes, outside.functionKind, Table.find?_insertIfNew,
    beq_self_eq_true, Bool.true_and, beq_iff_eq]
  split
  · next fresh => simp [fresh]
  · next known =>
      have settled := outside.settled other
      simp [settled, known]

theorem comparesAtTop_var (name : Name) (initializer : Option Expr) (span : Span) :
    ComparesAtTop (Stmt.resolve (.var name initializer span))
      ((readsOfOptionalExpr initializer).filter (· = name.text)) [name.text] := by
  intro before after found yields outside
  simp only [Stmt.resolve, yields_bind, yields_pure] at yields
  obtain ⟨_, _, declares, _, _, yieldsInitializer, _, _, defines, rfl, rfl⟩ := yields
  obtain ⟨_, rfl⟩ := declares.unique (yields_declare_top name before outside.scopes)
  have compares := compares_resolveOptionalExpr initializer
  obtain ⟨added, rfl⟩ := compares.quietly yieldsInitializer
  obtain ⟨_, rfl⟩ := defines.unique (yields_define_top name _ outside.scopes)
  have declared := overlaid_announced before.globals name.text
  refine ⟨⟨outside.scopes, outside.functionKind, declared.settled outside.settled⟩, declared, ?_⟩
  intro names globals overlaid errors
  have outsideBeside : Outside (beside before globals errors) :=
    ⟨outside.scopes, outside.functionKind, overlaid.settled outside.settled⟩
  -- Under each table the name itself is all that may wait, and only if it is new there.
  have pending := outside.inOwnInitializer_declared name.text
  have pendingBeside := outsideBeside.inOwnInitializer_declared name.text
  obtain ⟨more, fewer, extended, shadow, part, same⟩ :=
    compares yieldsInitializer (globals.insertIfNew name.text false) errors fun other reads => by
      obtain ⟨own, unknown⟩ := (pendingBeside other).mp reads
      exact (pending other).mpr ⟨own, ((overlaid.find?_eq_none _).mp unknown).2⟩
  obtain rfl : added = more := List.append_cancel_left (congrArg Resolver.errors extended)
  have declaresBeside := yields_declare_top name (beside before globals errors) outside.scopes
  have definesBeside := yields_define_top name
    (beside before (globals.insertIfNew name.text false) (errors ++ fewer)) outside.scopes
  have declaredBeside := overlaid_announced globals name.text
  refine ⟨_, added, fewer, overlaid.extend declared declaredBeside, rfl, ?_, part, ?_⟩
  · simp only [Stmt.resolve, yields_bind, yields_pure]
    exact ⟨(), _, declaresBeside, _, _, shadow, (), _, definesBeside, rfl, rfl⟩
  · rw [same]
    constructor
    · intro alike other member stained unknown
      obtain ⟨read, own⟩ := List.mem_filter.mp member
      obtain rfl := of_decide_eq_true own
      have reported := (alike _ read).trans ((pending _).mpr ⟨rfl, unknown⟩)
      exact ((overlaid.find?_eq_none _).mp ((pendingBeside _).mp reported).2).1 stained
    · intro known other read
      refine Bool.eq_iff_iff.mpr ((pendingBeside other).trans (Iff.trans ?_ (pending other).symm))
      rw [overlaid.find?_eq_none]
      constructor
      · intro unknown
        exact ⟨unknown.1, unknown.2.2⟩
      · intro unknown
        obtain ⟨rfl, unknown⟩ := unknown
        have member : name.text ∈ (readsOfOptionalExpr initializer).filter (· = name.text) :=
          List.mem_filter.mpr ⟨read, by simp⟩
        exact ⟨rfl, fun stained => known _ member stained unknown, unknown⟩

theorem comparesAtTop_function (declaration : FunctionDeclaration) (span : Span) :
    ComparesAtTop (Stmt.resolve (.function declaration span)) [] [declaration.name.text] := by
  have binds : ComparesAtTop (resolveFunction .function declaration) [] [] :=
    Compares.atTop (.of_runs (quiet_resolveFunction .function declaration) fun _ _ _ _ yields =>
      runs_resolveFunction .function declaration yields)
  exact comparesAtTop_announced declaration.name (binds.map fun _ => .pure _)

/-- Behind its name, a class leaves nothing but errors. -/
theorem yields_resolveHeritage {name : Name} {superclass : Option Reference}
    {methods : List FunctionDeclaration} {span : Span} {enclosing : ClassKind} {found : Stmt}
    (yields : Yields (resolveHeritage name superclass methods span enclosing) before found after) :
    ∃ more, after = { before with classKind := enclosing, errors := before.errors ++ more } := by
  simp only [resolveHeritage, yields_bind, yields_openScope, yields_closeScope] at yields
  obtain ⟨_, _, inherits, _, _, rfl, _, _, binds, _, _, rfl, restores⟩ := yields
  obtain ⟨more, rfl⟩ := quiet_resolveMethods methods binds
  obtain ⟨_, rfl, rfl⟩ | ⟨_, _, _, others, _, rfl, _, rfl⟩ := readSuperclass_spec inherits
  · simp only [Option.isSome_none, Bool.false_eq_true, if_false, yields_bind, yields_modify,
      yields_pure] at restores
    obtain ⟨_, _, rfl, _, rfl⟩ := restores
    exact ⟨more, rfl⟩
  · simp only [Option.isSome_some, if_true, yields_bind, yields_closeScope, yields_modify,
      yields_pure] at restores
    obtain ⟨_, _, rfl, _, _, rfl, _, rfl⟩ := restores
    exact ⟨others ++ more, by simp⟩

theorem comparesAtTop_resolveHeritage (name : Name) (superclass : Option Reference)
    (methods : List FunctionDeclaration) (span : Span) (enclosing : ClassKind) :
    ComparesAtTop (resolveHeritage name superclass methods span enclosing) [] [] := by
  refine .of_runs (fun _ _ _ yields _ => ?_) fun _ _ _ _ yields alike =>
    runs_resolveHeritage (runs_resolveMethods methods) yields alike
  obtain ⟨more, rfl⟩ := yields_resolveHeritage yields
  exact ⟨rfl, rfl, rfl⟩

theorem comparesAtTop_class (name : Name) (superclass : Option Reference)
    (methods : List FunctionDeclaration) (span : Span) :
    ComparesAtTop (Stmt.resolve (.class name superclass methods span)) [] [name.text] := by
  have enters : ComparesAtTop
      (modify fun resolver => { resolver with classKind := .base }) [] [] := by
    refine .of_runs (fun _ _ _ yields _ => ?_) fun _ _ _ _ yields _ => ?_
    · obtain rfl := yields_modify.mp yields
      exact ⟨rfl, rfl, rfl⟩
    · obtain rfl := yields_modify.mp yields
      exact runs_modify rfl fun _ => rfl
  have rest (enclosing : ClassKind) := enters.bind fun _ =>
    comparesAtTop_announced name
      (comparesAtTop_resolveHeritage name superclass methods span enclosing)
  rw [resolve_class]
  intro before after found yields outside
  obtain ⟨_, _, ⟨rfl, rfl⟩, yieldsRest⟩ := yields_bind.mp yields
  obtain ⟨outsideAfter, declared, shadows⟩ := rest before.classKind yieldsRest outside
  refine ⟨outsideAfter, declared, ?_⟩
  intro names globals overlaid errors
  obtain ⟨others, more, fewer, overlaidAfter, extended, shadow, part, same⟩ :=
    shadows overlaid errors
  exact ⟨others, more, fewer, overlaidAfter, extended,
    yields_bind.mpr ⟨_, _, yields_get.mpr ⟨rfl, rfl⟩, shadow⟩, part, same⟩

theorem Compares.inLoop {pass : Pass α} {next : α → Pass β} {reads others : List String}
    (body : Compares pass reads) (rest : ∀ value, Compares (next value) others) :
    Compares (do
      modify fun resolver => { resolver with loopDepth := resolver.loopDepth + 1 }
      let value ← pass
      modify fun resolver => { resolver with loopDepth := resolver.loopDepth - 1 }
      next value) (reads ++ others) := by
  intro before after found yields globals errors less
  simp only [yields_bind, yields_modify] at yields ⊢
  obtain ⟨_, _, rfl, value, _, yieldsBody, _, _, rfl, yieldsNext⟩ := yields
  obtain ⟨more, fewer, rfl, shadowBody, part, same⟩ := body yieldsBody globals errors less
  obtain ⟨more', fewer', rfl, shadowNext, part', same'⟩ :=
    rest value yieldsNext globals (errors ++ fewer) less
  refine ⟨more ++ more', fewer ++ fewer', by simp,
    ⟨(), _, rfl, value, _, shadowBody, (), _, rfl, ?_⟩, part.append part', ?_⟩
  · rw [← List.append_assoc]
    exact shadowNext
  · rw [append_eq_append_of_sublist part part', same, same', List.forall_mem_append]
    exact Iff.rfl

mutual

/-- A statement that declares nothing leaves nothing but errors. -/
theorem compares_undeclared : (stmt : Stmt) → stmt.Unbound → stmt.declared? = none →
    ∃ reads, Compares stmt.resolve reads
  | .expression value _, _, _ => ⟨_, (compares_resolve value).map fun _ => .pure _⟩
  | .print value _, _, _ => ⟨_, (compares_resolve value).map fun _ => .pure _⟩
  | .block statements span, _, _ => by
      refine ⟨[], .of_runs (fun before after found yields => ?_) fun _ _ _ _ yields =>
        runs_block (runs_resolveStmts statements) yields⟩
      simp only [Stmt.resolve, yields_bind, yields_openScope, yields_closeScope,
        yields_pure] at yields
      obtain ⟨_, _, rfl, _, _, yieldsBody, _, _, rfl, _, rfl⟩ := yields
      exact (steady_resolveStmts statements yieldsBody).closeBlock
  | .conditional condition thenBranch elseBranch _, unbound, _ => by
      obtain ⟨_, ⟨unboundThen, undeclaredThen⟩, unboundElse⟩ := unbound
      obtain ⟨readsThen, comparesThen⟩ := compares_undeclared thenBranch unboundThen undeclaredThen
      obtain ⟨readsElse, comparesElse⟩ := compares_undeclaredBranch elseBranch unboundElse
      exact ⟨_, (compares_resolve condition).bind fun _ =>
        comparesThen.bind fun _ => comparesElse.map fun _ => .pure _⟩
  | .loop condition body increment _, unbound, _ => by
      obtain ⟨_, ⟨unboundBody, undeclaredBody⟩, _⟩ := unbound
      obtain ⟨readsBody, comparesBody⟩ := compares_undeclared body unboundBody undeclaredBody
      exact ⟨_, (compares_resolve condition).bind fun _ => comparesBody.inLoop fun _ =>
        (compares_resolveOptionalExpr increment).map fun _ => .pure _⟩
  | .return value span, _, _ =>
      ⟨_, Compares.bind (.of_runs (quiet_checkReturn value.isSome span) fun _ _ _ _ yields =>
        runs_checkReturn value.isSome span yields) fun _ =>
          (compares_resolveOptionalExpr value).map fun _ => .pure _⟩
  | .break span, _, _ =>
      ⟨_, Compares.map (.of_runs (quiet_checkJump _ _ span) fun _ _ _ _ yields =>
        runs_checkJump _ _ span yields) fun _ => .pure _⟩
  | .continue span, _, _ =>
      ⟨_, Compares.map (.of_runs (quiet_checkJump _ _ span) fun _ _ _ _ yields =>
        runs_checkJump _ _ span yields) fun _ => .pure _⟩

theorem compares_undeclaredBranch : (branch : Option Stmt) → unboundBranch branch →
    ∃ reads, Compares (resolveOptionalStmt branch) reads
  | none, _ => ⟨_, .pure _⟩
  | some branch, unbound => by
      obtain ⟨reads, compares⟩ := compares_undeclared branch unbound.1 unbound.2
      exact ⟨_, compares.map fun _ => .pure _⟩

end

theorem comparesAtTop_resolve (stmt : Stmt) (unbound : stmt.Unbound) :
    ComparesAtTop stmt.resolve stmt.selfReads stmt.declared?.toList := by
  cases declared : stmt.declared? with
  | none =>
      obtain ⟨_, compares⟩ := compares_undeclared stmt unbound declared
      have quiet := compares.atTop
      cases stmt with
      | var name initializer span => cases declared
      | _ => exact quiet
  | some name =>
      cases stmt with
      | var target initializer span =>
          obtain rfl := Option.some.inj declared
          exact comparesAtTop_var target initializer span
      | function declaration span =>
          obtain rfl := Option.some.inj declared
          exact comparesAtTop_function declaration span
      | «class» target superclass methods span =>
          obtain rfl := Option.some.inj declared
          exact comparesAtTop_class target superclass methods span
      | _ => cases declared

theorem comparesAtTop_resolveStmts (stmts : List Stmt) (unbound : unboundStmts stmts) :
    ComparesAtTop (resolveStmts stmts) (selfReadsOf stmts) (declaredBy stmts) := by
  induction stmts with
  | nil => exact .pure _
  | cons stmt rest inductionHypothesis =>
      exact (comparesAtTop_resolve stmt unbound.1).bind fun _ =>
        (inductionHypothesis unbound.2).map fun _ => .pure _

/-! ## Programs -/

variable {resolver stained : Resolver}

theorem AtTop.eq_withGlobals (atTop : AtTop resolver) :
    resolver = Resolver.withGlobals resolver.globals := by
  obtain ⟨scopes, globals, functionKind, classKind, loopDepth, errors⟩ := resolver
  obtain ⟨rfl, rfl, rfl, rfl, rfl⟩ := atTop
  rfl

theorem AtTop.outside (atTop : AtTop resolver) (settled : Settled resolver.globals) :
    Outside resolver :=
  ⟨atTop.scopes, atTop.functionKind, settled⟩

/-- Between two programs, the second resolver knows these names as well. -/
structure Overlays (names : List String) (resolver stained : Resolver) : Prop where
  atTop : AtTop resolver
  stainedAtTop : AtTop stained
  settled : Settled resolver.globals
  globals : Overlaid names resolver.globals stained.globals

/-- Behind a program, right or wrong, the names that it declares are known. -/
theorem overlays_resolve (atTop : AtTop resolver) (settled : Settled resolver.globals)
    {program : Program} (unbound : unboundStmts program.statements) :
    Overlays (declaredBy program.statements) resolver (resolver.resolve program).resolver := by
  obtain ⟨after, yields, _, same⟩ := yields_resolve resolver program
  obtain ⟨_, declared, _⟩ :=
    comparesAtTop_resolveStmts program.statements unbound yields (atTop.outside settled)
  refine ⟨atTop, atTop.resolve program, settled, ?_⟩
  rw [same]
  exact declared

theorem Overlays.defineGlobal (overlays : Overlays names resolver stained) (name : String) :
    Overlays names (resolver.defineGlobal name) (stained.defineGlobal name) where
  atTop := overlays.atTop.defineGlobal name
  stainedAtTop := overlays.stainedAtTop.defineGlobal name
  settled := (overlaid_insert _ name).settled overlays.settled
  globals := overlays.globals.extend (overlaid_insert _ name) (overlaid_insert _ name)

/-- A program is bound alike. Complaints are missing exactly if one of the names is read
in its own initializer and known to the second resolver alone. -/
theorem Overlays.resolve (overlays : Overlays names resolver stained) {program : Program}
    (unbound : unboundStmts program.statements) :
    (stained.resolve program).program.statements =
        (resolver.resolve program).program.statements ∧
      Overlays names (resolver.resolve program).resolver (stained.resolve program).resolver ∧
      (stained.resolve program).errors.Sublist (resolver.resolve program).errors ∧
      ((stained.resolve program).errors = (resolver.resolve program).errors ↔
        ∀ name ∈ selfReadsOf program.statements, name ∈ names →
          resolver.globals.find? name ≠ none) := by
  obtain ⟨atTop, stainedAtTop, settled, overlaid⟩ := overlays
  obtain ⟨after, yields, errors, same⟩ := yields_resolve resolver program
  obtain ⟨afterStained, yieldsStained, errorsStained, sameStained⟩ := yields_resolve stained program
  obtain ⟨outside, declared, shadows⟩ :=
    comparesAtTop_resolveStmts program.statements unbound yields (atTop.outside settled)
  obtain ⟨others, more, fewer, overlaidAfter, extended, shadow, part, alike⟩ :=
    shadows overlaid []
  have known : stained = beside resolver stained.globals [] := by
    rw [atTop.eq_withGlobals, stainedAtTop.eq_withGlobals]
    rfl
  rw [← known] at shadow
  obtain ⟨found, rfl⟩ := yieldsStained.unique shadow
  refine ⟨found, ⟨atTop.resolve program, stainedAtTop.resolve program, ?_, ?_⟩, ?_, ?_⟩
  · rw [same]
    exact outside.settled
  · rw [same, sameStained]
    exact overlaidAfter
  · rw [errorsStained, errors, extended, atTop.errors]
    exact part
  · rw [errorsStained, errors, extended, atTop.errors, ← alike]
    exact Iff.rfl

end Binding

end Lox
