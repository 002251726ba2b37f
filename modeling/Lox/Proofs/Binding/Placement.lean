import Lox.Proofs.Binding.Addressed
import Lox.Proofs.Binding.Overlay

/-!
Contract: what the resolver carries along, as a function of the regions around a place.

The pass over names keeps scopes, the kinds of function and class, a count of loops and
the globals that are known. At every place these are what the regions around it say
(`Stands`): the scopes list the different names of the local regions, and a name is
pending exactly in its own initializer.

Main statements: `Placed.declare` and `Placed.define`, a declaration moves the resolver on
as it moves the regions on, and is reported exactly if it breaks its rule.

Owns: the invariant, and what opens and closes regions. Does not own: trees.
-/

set_option autoImplicit false

namespace Lox

open Binding

/-! ## Regions around statements -/

namespace Regions

/-- The different names of each scope around a place, the innermost scope first. -/
def context : Regions → Context
  | [] => []
  | .block names :: outer => names.eraseDups :: context outer
  | .function _ names :: outer => names.eraseDups :: context outer
  | .methods inherits :: outer =>
      ["this"] :: if inherits then ["super"] :: context outer else context outer
  | .loop :: outer => context outer
  | .initializer _ _ :: outer => context outer
  | .program _ :: outer => context outer

/-- A statement may stand there: right in a block, a function, a loop or the program. -/
inductive AtStatement : Regions → Prop where
  | block (names : List String) (outer : Regions) : AtStatement (.block names :: outer)
  | function (isInitializer : Bool) (names : List String) (outer : Regions) :
      AtStatement (.function isInitializer names :: outer)
  | program (names : List String) : AtStatement [.program names]
  | loop {outer : Regions} : AtStatement outer → AtStatement (.loop :: outer)

variable {around : Regions}

theorem AtStatement.initializing?_eq_none (atStatement : around.AtStatement) :
    around.initializing? = none := by
  cases atStatement <;> rfl

theorem AtStatement.declare (atStatement : around.AtStatement) (name : String) :
    (around.declare name).AtStatement := by
  induction atStatement with
  | block names outer => exact .block _ outer
  | function isInitializer names outer => exact .function isInitializer _ outer
  | program names => exact .program _
  | loop _ inductionHypothesis => exact .loop inductionHypothesis

theorem AtStatement.declareAll (atStatement : around.AtStatement) (names : List String) :
    (around.declareAll names).AtStatement := by
  induction names generalizing around with
  | nil => exact atStatement
  | cons name rest inductionHypothesis => exact inductionHypothesis (atStatement.declare name)

theorem AtStatement.declared_declare (atStatement : around.AtStatement) (name : String) :
    (around.declare name).declared = around.declared ++ [name] := by
  induction atStatement with
  | block names outer => rfl
  | function isInitializer names outer => rfl
  | program names => rfl
  | loop _ inductionHypothesis => exact inductionHypothesis

/-- A name that is declared again does not count again. -/
theorem eraseDups_append_singleton (names : List String) (name : String) :
    (names ++ [name]).eraseDups =
      if name ∈ names.eraseDups then names.eraseDups else names.eraseDups ++ [name] := by
  rw [List.eraseDups_append]
  by_cases member : name ∈ names
  · simp [member, List.removeAll]
  · simp [member, List.removeAll, List.eraseDups_cons]

theorem AtStatement.context_declare (atStatement : around.AtStatement) (name : String) :
    (around.declare name).context = around.context.add name := by
  induction atStatement with
  | block names outer =>
      simp only [Regions.declare, context, Context.add, eraseDups_append_singleton]
  | function isInitializer names outer =>
      simp only [Regions.declare, context, Context.add, eraseDups_append_singleton]
  | program names => rfl
  | loop _ inductionHypothesis => exact inductionHypothesis

theorem AtStatement.context_declareAll (atStatement : around.AtStatement)
    (names : List String) :
    (around.declareAll names).context = around.context.addAll names := by
  induction names generalizing around with
  | nil => rfl
  | cons name rest inductionHypothesis =>
      have step := inductionHypothesis (atStatement.declare name)
      rw [atStatement.context_declare name] at step
      exact step

/-- Right in a local scope, the context begins with the different names of that scope. -/
theorem AtStatement.context_of_isLocal (atStatement : around.AtStatement)
    (isLocal : around.isLocal = true) :
    ∃ outer, around.context = around.declared.eraseDups :: outer := by
  induction atStatement with
  | block names outer => exact ⟨outer.context, rfl⟩
  | function isInitializer names outer => exact ⟨outer.context, rfl⟩
  | program names => cases isLocal
  | loop _ inductionHypothesis => exact inductionHypothesis isLocal

/-- Outside of local scopes there is no context and no function. -/
theorem AtStatement.outside_of_not_isLocal (atStatement : around.AtStatement)
    (global : around.isLocal = false) : around.context = [] ∧ around.function? = none := by
  induction atStatement with
  | block names outer => cases global
  | function isInitializer names outer => cases global
  | program names => exact ⟨rfl, rfl⟩
  | loop _ inductionHypothesis => exact inductionHypothesis global

@[simp] theorem isLocal_declare (around : Regions) (name : String) :
    (around.declare name).isLocal = around.isLocal := by
  induction around with
  | nil => rfl
  | cons region outer inductionHypothesis =>
      cases region <;> first | rfl | exact inductionHypothesis

@[simp] theorem inLoop_declare (around : Regions) (name : String) :
    (around.declare name).inLoop = around.inLoop := by
  induction around with
  | nil => rfl
  | cons region outer inductionHypothesis =>
      cases region <;> first | rfl | exact inductionHypothesis

@[simp] theorem inLoop_declareAll (around : Regions) (names : List String) :
    (around.declareAll names).inLoop = around.inLoop := by
  induction names generalizing around with
  | nil => rfl
  | cons name rest inductionHypothesis =>
      exact (inductionHypothesis (around.declare name)).trans (inLoop_declare around name)

@[simp] theorem function?_declare (around : Regions) (name : String) :
    (around.declare name).function? = around.function? := by
  induction around with
  | nil => rfl
  | cons region outer inductionHypothesis =>
      cases region <;> first | rfl | exact inductionHypothesis

@[simp] theorem class?_declare (around : Regions) (name : String) :
    (around.declare name).class? = around.class? := by
  induction around with
  | nil => rfl
  | cons region outer inductionHypothesis =>
      cases region <;> first | rfl | exact inductionHypothesis

@[simp] theorem class?_declareAll (around : Regions) (names : List String) :
    (around.declareAll names).class? = around.class? := by
  induction names generalizing around with
  | nil => rfl
  | cons name rest inductionHypothesis =>
      exact (inductionHypothesis (around.declare name)).trans (class?_declare around name)

theorem declareAll_append (names others : List String) (around : Regions) :
    around.declareAll (names ++ others) = (around.declareAll names).declareAll others :=
  List.foldl_append

theorem declareAll_loop (names : List String) (outer : Regions) :
    declareAll names (.loop :: outer) = .loop :: outer.declareAll names := by
  induction names generalizing outer with
  | nil => rfl
  | cons name rest inductionHypothesis => exact inductionHypothesis (outer.declare name)

theorem declareAll_function (names earlier : List String) (isInitializer : Bool)
    (outer : Regions) :
    declareAll names (.function isInitializer earlier :: outer) =
      .function isInitializer (earlier ++ names) :: outer := by
  induction names generalizing earlier with
  | nil => simp [declareAll]
  | cons name rest inductionHypothesis =>
      have step := inductionHypothesis (earlier ++ [name])
      rw [List.append_assoc] at step
      exact step

/-- The scope of a function begins with its parameters. -/
theorem context_function (isInitializer : Bool) (parameters : List Name) (outer : Regions) :
    context (.function isInitializer (parameters.map Name.text) :: outer) =
      Context.addAll ([] :: outer.context) (parameters.map Name.text) := by
  have added := (AtStatement.function isInitializer [] outer).context_declareAll
    (parameters.map Name.text)
  rw [declareAll_function, List.nil_append] at added
  exact added

theorem declareAll_program (names earlier : List String) :
    declareAll names [.program earlier] = [.program (earlier ++ names)] := by
  induction names generalizing earlier with
  | nil => simp [declareAll]
  | cons name rest inductionHypothesis =>
      have step := inductionHypothesis (earlier ++ [name])
      rw [List.append_assoc] at step
      exact step

end Regions

/-! ## Errors at one node -/

namespace Occurrence

/-- The rules one after the other. -/
theorem errors_eq_flatMap (occurrence : Occurrence) :
    occurrence.errors =
      BindingError.Cause.all.flatMap fun cause =>
        if occurrence.Breaks cause then [occurrence.error cause] else [] := by
  unfold errors
  induction BindingError.Cause.all with
  | nil => rfl
  | cons cause rest inductionHypothesis =>
      by_cases broken : occurrence.Breaks cause
      · simpa [broken] using inductionHypothesis
      · simpa [broken] using inductionHypothesis

variable (around : Regions)

section

attribute [local simp] errors_eq_flatMap BindingError.Cause.all Breaks error Node.lexeme Node.span

theorem errors_read (reference : Reference) :
    errors ⟨.read reference, around⟩ =
      if around.initializing? = some reference.name.text then
        [⟨.ownInitializer, reference.name.text, reference.name.span⟩]
      else [] := by
  split <;> simp [*]

theorem errors_assign (reference : Reference) : errors ⟨.assign reference, around⟩ = [] := by
  simp

theorem errors_superclass (reference : Reference) (className : String) :
    errors ⟨.superclass reference className, around⟩ =
      if reference.name.text = className then
        [⟨.inheritsFromItself, reference.name.text, reference.name.span⟩]
      else [] := by
  split <;> simp [*]

theorem errors_this (address : Option Address) (span : Span) :
    errors ⟨.this address span, around⟩ =
      if around.class? = none then [⟨.thisOutsideClass, "this", span⟩] else [] := by
  split <;> simp [*]

theorem errors_super (address : Option Address) (span : Span) :
    errors ⟨.super address span, around⟩ =
      (if around.class? = none then [⟨.superOutsideClass, "super", span⟩] else []) ++
        if around.class? = some false then [⟨.superWithoutSuperclass, "super", span⟩] else [] := by
  split <;> split <;> simp_all

theorem errors_declaration (name : Name) :
    errors ⟨.declaration name, around⟩ =
      if around.isLocal = true ∧ name.text ∈ around.declared then
        [⟨.duplicate, name.text, name.span⟩]
      else [] := by
  split <;> simp [*]

theorem errors_return (hasValue : Bool) (span : Span) :
    errors ⟨.return hasValue span, around⟩ =
      (if around.function? = none then [⟨.returnOutsideFunction, "return", span⟩] else []) ++
        if hasValue = true ∧ around.function? = some true then
          [⟨.returnFromInitializer, "return", span⟩]
        else [] := by
  cases hasValue <;> split <;> split <;> simp_all

theorem errors_break (span : Span) :
    errors ⟨.break span, around⟩ =
      if around.inLoop = false then [⟨.breakOutsideLoop, "break", span⟩] else [] := by
  split <;> simp [*]

theorem errors_continue (span : Span) :
    errors ⟨.continue span, around⟩ =
      if around.inLoop = false then [⟨.continueOutsideLoop, "continue", span⟩] else [] := by
  split <;> simp [*]

end

end Occurrence

/-! ## The invariant -/

namespace Binding

/-- The kind of class for which a class has a superclass or not, if there is a class. -/
def kindOfClass : Option Bool → ClassKind
  | none => .none
  | some false => .base
  | some true => .subclass

/-- But for the kind of class, the resolver carries what the regions around a place say. -/
structure Placed (around : Regions) (resolver : Resolver) : Prop where
  context : contextOf resolver.scopes = around.context
  outside : resolver.functionKind = .none ↔ around.function? = none
  initializer : resolver.functionKind = .initializer ↔ around.function? = some true
  loopDepth : resolver.loopDepth = 0 ↔ around.inLoop = false
  pending : ∀ name, inOwnInitializer resolver name = true ↔ around.initializing? = some name
  known : resolver.scopes = [] →
    ∀ name, resolver.globals.find? name = none ↔ name ∉ around.declared

/-- The resolver carries what the regions around a place say. -/
structure Stands (around : Regions) (resolver : Resolver) : Prop extends
    Placed around resolver where
  classKind : resolver.classKind = kindOfClass around.class?

variable {around inner : Regions} {before after : Resolver}

/-- Errors and the kind of class do not count. -/
theorem Placed.change (placed : Placed around before) (classKind : ClassKind)
    (errors : List BindingError) :
    Placed around { before with classKind := classKind, errors := errors } :=
  ⟨placed.context, placed.outside, placed.initializer, placed.loopDepth, placed.pending,
    placed.known⟩

theorem Stands.report (stands : Stands around before) (errors : List BindingError) :
    Stands around { before with errors := errors } :=
  ⟨stands.toPlaced.change before.classKind errors, stands.classKind⟩

theorem Stands.inClass_iff (stands : Stands around before) :
    before.classKind = .none ↔ around.class? = none := by
  rw [stands.classKind]
  cases around.class? with
  | none => simp [kindOfClass]
  | some inherits => cases inherits <;> simp [kindOfClass]

/-! ## Declarations -/

theorem isPending_declare (scope : Scope) (name other : String) :
    (scope.declare name).isPending other = true ↔
      scope.isPending other = true ∨ name = other := by
  simp [Scope.isPending, Scope.declare]

theorem isPending_define (scope : Scope) (name other : String) :
    (scope.define name).isPending other = true ↔
      scope.isPending other = true ∧ name ≠ other := by
  simp only [Scope.isPending, Scope.define, List.any_map, List.any_eq_true, Function.comp]
  constructor
  · rintro ⟨entry, member, waits⟩
    by_cases same : entry.name = name
    · simp [same] at waits
    · have different : name ≠ other := fun equal => same (by simp_all)
      exact ⟨⟨entry, member, by simpa [same] using waits⟩, different⟩
  · rintro ⟨⟨entry, member, waits⟩, different⟩
    have same : entry.name ≠ name := fun equal => different (by simp_all)
    exact ⟨entry, member, by simpa [same] using waits⟩

theorem slot?_isSome_iff (scope : Scope) (name : String) :
    (scope.slot? name).isSome = true ↔ name ∈ scope.map Local.name := by
  simp [Scope.slot?, List.findIdx?_isSome]

theorem Placed.isLocal (placed : Placed around before) (atStatement : around.AtStatement)
    (isLocal : around.isLocal = true) :
    ∃ scope outer, before.scopes = scope :: outer ∧
      scope.map Local.name = around.declared.eraseDups := by
  obtain ⟨outer, context⟩ := atStatement.context_of_isLocal isLocal
  have scopes := placed.context.trans context
  obtain ⟨scope, others, same, names, _⟩ := List.map_eq_cons_iff.mp scopes
  exact ⟨scope, others, same, names⟩

theorem Placed.global (placed : Placed around before) (atStatement : around.AtStatement)
    (global : around.isLocal = false) : before.scopes = [] ∧ before.functionKind = .none := by
  obtain ⟨context, outside⟩ := atStatement.outside_of_not_isLocal global
  exact ⟨List.map_eq_nil_iff.mp (placed.context.trans context), placed.outside.mpr outside⟩

/-- What a declaration changes. -/
structure Declared (around : Regions) (name : Name) (before after : Resolver) : Prop where
  context : contextOf after.scopes = around.context.add name.text
  pending : ∀ other, inOwnInitializer after other = true ↔
    name.text ∉ around.declared ∧ name.text = other
  known : after.scopes = [] → ∀ other, after.globals.find? other = none ↔
    other ∉ around.declared ++ [name.text]
  errors : after.errors = before.errors ++ Occurrence.errors ⟨.declaration name, around⟩

theorem Placed.declared_global (placed : Placed around before) (atStatement : around.AtStatement)
    (global : around.isLocal = false) {name : Name} {found : Unit}
    (yields : Yields (declare name) before found after) : Declared around name before after := by
  obtain ⟨top, kind⟩ := placed.global atStatement global
  have unready : ∀ other, before.globals.find? other ≠ some false := by
    intro other waits
    have pending : inOwnInitializer before other = true := by
      simp [inOwnInitializer, top, kind, waits]
    have absent := (placed.pending other).mp pending
    rw [atStatement.initializing?_eq_none] at absent
    cases absent
  simp only [declare, yields_bind, yields_get] at yields
  obtain ⟨_, _, ⟨rfl, rfl⟩, yields⟩ := yields
  rw [top] at yields
  obtain rfl := yields_set.mp yields
  have unknown := placed.known top
  constructor
  · rw [← placed.context, top]
    rfl
  · intro other
    simp only [inOwnInitializer, kind, Table.find?_insertIfNew, ← unknown]
    by_cases same : other = name.text
    · subst same
      by_cases fresh : before.globals.find? name.text = none <;> simp [fresh, unready]
    · simp [same, Ne.symm same, unready]
  · intro _ other
    rw [Table.find?_insertIfNew]
    by_cases same : other = name.text
    · subst same
      by_cases fresh : before.globals.find? name.text = none <;> simp [fresh]
    · simp [same, unknown]
  · simp [Occurrence.errors_declaration, global]

theorem Placed.declared_local (placed : Placed around before) (atStatement : around.AtStatement)
    (isLocal : around.isLocal = true) {name : Name} {found : Unit}
    (yields : Yields (declare name) before found after) : Declared around name before after := by
  obtain ⟨scope, outer, inside, names⟩ := placed.isLocal atStatement isLocal
  have context : around.context = scope.map Local.name :: contextOf outer := by
    rw [← placed.context, inside]
    rfl
  have member : (scope.slot? name.text).isSome = true ↔ name.text ∈ around.declared := by
    rw [slot?_isSome_iff, names, List.mem_eraseDups]
  have ready : ∀ other, scope.isPending other = false := by
    intro other
    have pending := placed.pending other
    simpa [inOwnInitializer, inside, atStatement.initializing?_eq_none] using pending
  simp only [declare, yields_bind, yields_get] at yields
  obtain ⟨_, _, ⟨rfl, rfl⟩, yields⟩ := yields
  rw [inside] at yields
  by_cases again : name.text ∈ around.declared
  · have present := member.mpr again
    simp only [present, if_true] at yields
    obtain rfl := yields_report.mp yields
    constructor
    · rw [placed.context, context, Context.add, if_pos ((slot?_isSome_iff _ _).mp present)]
    · intro other
      simp [inOwnInitializer, inside, ready, again]
    · intro top
      simp [inside] at top
    · simp [Occurrence.errors_declaration, isLocal, again]
  · have absent : ¬ (scope.slot? name.text).isSome = true := mt member.mp again
    simp only [absent] at yields
    obtain rfl := yields_set.mp yields
    constructor
    · rw [context, Context.add, if_neg (mt (slot?_isSome_iff _ _).mpr absent)]
      simp [contextOf, Scope.declare]
    · intro other
      simp [inOwnInitializer, isPending_declare, ready, again]
    · intro top
      simp at top
    · simp [Occurrence.errors_declaration, again]

/-- A declaration leaves the place in front of the initializer, and it is reported if the
same scope has one of that name. -/
theorem Placed.declare (placed : Placed around before) (atStatement : around.AtStatement)
    {name : Name} {found : Unit} (yields : Yields (declare name) before found after) :
    Placed (.initializer name.text around.declared :: around.declare name.text) after ∧
      after.errors = before.errors ++ Occurrence.errors ⟨.declaration name, around⟩ := by
  have steady := steady_declare name yields
  have declared : Declared around name before after := by
    cases isLocal : around.isLocal with
    | false => exact placed.declared_global atStatement isLocal yields
    | true => exact placed.declared_local atStatement isLocal yields
  refine ⟨⟨?_, ?_, ?_, ?_, ?_, ?_⟩, declared.errors⟩
  · exact declared.context.trans (atStatement.context_declare name.text).symm
  · rw [steady.functionKind, placed.outside, Regions.function?, Regions.function?_declare]
  · rw [steady.functionKind, placed.initializer, Regions.function?, Regions.function?_declare]
  · rw [steady.loopDepth, placed.loopDepth, Regions.inLoop, Regions.inLoop_declare]
  · intro other
    rw [declared.pending, Regions.initializing?]
    split <;> simp [*]
  · intro top other
    rw [declared.known top, Regions.declared, atStatement.declared_declare]

/-- In an initializer, no other name is pending. -/
theorem Placed.eq_of_pending {name : String} {earlier : List String}
    (placed : Placed (.initializer name earlier :: inner) before) {other : String}
    (waits : inOwnInitializer before other = true) : name = other := by
  have pending := (placed.pending other).mp waits
  rw [Regions.initializing?] at pending
  split at pending
  · cases pending
  · exact Option.some.inj pending

/-- Behind an initializer, if no name is pending there. -/
theorem Placed.leave {name : String} {earlier : List String}
    (placed : Placed (.initializer name earlier :: inner) before)
    (atStatement : inner.AtStatement) (steady : Steady before after)
    (context : contextOf after.scopes = contextOf before.scopes)
    (ready : ∀ other, ¬ inOwnInitializer after other = true)
    (known : after.scopes = [] → ∀ other, after.globals.find? other = none ↔
      other ∉ inner.declared) : Placed inner after where
  context := context.trans placed.context
  outside := by
    rw [steady.functionKind]
    exact placed.outside
  initializer := by
    rw [steady.functionKind]
    exact placed.initializer
  loopDepth := by
    rw [steady.loopDepth]
    exact placed.loopDepth
  pending other := by simp [ready, atStatement.initializing?_eq_none]
  known := known

/-- Behind the initializer, the name is ready. -/
theorem Placed.define {name : Name} {earlier : List String}
    (placed : Placed (.initializer name.text earlier :: inner) before)
    (atStatement : inner.AtStatement) (member : name.text ∈ inner.declared) {found : Unit}
    (yields : Yields (define name) before found after) :
    Placed inner after ∧ after.errors = before.errors := by
  have steady := steady_define name yields
  have context := define_context yields
  simp only [Binding.define, yields_modify] at yields
  cases scopes : before.scopes with
  | nil =>
      rw [scopes] at yields
      subst yields
      refine ⟨placed.leave atStatement steady context ?_ ?_, rfl⟩
      · intro other waits
        by_cases same : other = name.text
        · simp [inOwnInitializer, Table.find?_insert, same] at waits
        · have waited : inOwnInitializer before other = true := by
            simpa [inOwnInitializer, scopes, Table.find?_insert, same] using waits
          exact same (placed.eq_of_pending waited).symm
      · intro _ other
        rw [Table.find?_insert]
        by_cases same : other = name.text
        · simp [same, member]
        · rw [if_neg same]
          exact placed.known scopes other
  | cons scope outer =>
      rw [scopes] at yields
      subst yields
      refine ⟨placed.leave atStatement steady context ?_ ?_, rfl⟩
      · intro other waits
        obtain ⟨waited, different⟩ := (isPending_define scope name.text other).mp waits
        exact different (placed.eq_of_pending (by simpa [inOwnInitializer, scopes] using waited))
      · intro top
        cases top

/-- A name that is declared and ready at once. -/
theorem Placed.announce (placed : Placed around before) (atStatement : around.AtStatement)
    {name : Name} {found : Unit}
    (yields : Yields (do Binding.declare name; Binding.define name) before found after) :
    Placed (around.declare name.text) after ∧
      after.errors = before.errors ++ Occurrence.errors ⟨.declaration name, around⟩ := by
  obtain ⟨_, declared, declares, defines⟩ := yields_bind.mp yields
  obtain ⟨initializing, reported⟩ := placed.declare atStatement declares
  have member : name.text ∈ (around.declare name.text).declared := by
    simp [atStatement.declared_declare]
  obtain ⟨behind, same⟩ := initializing.define (atStatement.declare name.text) member defines
  exact ⟨behind, same.trans reported⟩

theorem Stands.declare (stands : Stands around before) (atStatement : around.AtStatement)
    {name : Name} {found : Unit} (yields : Yields (Binding.declare name) before found after) :
    Stands (.initializer name.text around.declared :: around.declare name.text) after ∧
      after.errors = before.errors ++ Occurrence.errors ⟨.declaration name, around⟩ := by
  obtain ⟨placed, errors⟩ := stands.toPlaced.declare atStatement yields
  refine ⟨⟨placed, ?_⟩, errors⟩
  rw [(steady_declare name yields).classKind, stands.classKind, Regions.class?,
    Regions.class?_declare]

theorem Stands.define {name : Name} {earlier : List String}
    (stands : Stands (.initializer name.text earlier :: inner) before)
    (atStatement : inner.AtStatement) (member : name.text ∈ inner.declared) {found : Unit}
    (yields : Yields (Binding.define name) before found after) :
    Stands inner after ∧ after.errors = before.errors := by
  obtain ⟨placed, errors⟩ := stands.toPlaced.define atStatement member yields
  exact ⟨⟨placed, (steady_define name yields).classKind.trans stands.classKind⟩, errors⟩

theorem Stands.announce (stands : Stands around before) (atStatement : around.AtStatement)
    {name : Name} {found : Unit}
    (yields : Yields (do Binding.declare name; Binding.define name) before found after) :
    Stands (around.declare name.text) after ∧
      after.errors = before.errors ++ Occurrence.errors ⟨.declaration name, around⟩ := by
  obtain ⟨placed, errors⟩ := stands.toPlaced.announce atStatement yields
  have steady := (steady_declare name).bind (fun _ => steady_define name) yields
  refine ⟨⟨placed, ?_⟩, errors⟩
  rw [steady.classKind, stands.classKind, Regions.class?_declare]

/-! ## Regions that open -/

theorem Stands.block (stands : Stands around before) :
    Stands (.block [] :: around) { before with scopes := [] :: before.scopes } where
  context := congrArg (List.cons []) stands.context
  outside := stands.outside
  initializer := stands.initializer
  loopDepth := stands.loopDepth
  pending _ := by simp [inOwnInitializer, Scope.isPending, Regions.initializing?]
  known top := by cases top
  classKind := stands.classKind

theorem Stands.function (stands : Stands around before) {kind : FunctionKind}
    {isInitializer : Bool} (inside : kind ≠ .none)
    (initializer : kind = .initializer ↔ isInitializer = true) :
    Stands (.function isInitializer [] :: around)
      { before with scopes := [] :: before.scopes, functionKind := kind, loopDepth := 0 } where
  context := congrArg (List.cons []) stands.context
  outside := by simp [inside, Regions.function?]
  initializer := by simp [initializer, Regions.function?]
  loopDepth := by simp [Regions.inLoop]
  pending _ := by simp [inOwnInitializer, Scope.isPending, Regions.initializing?]
  known top := by cases top
  classKind := stands.classKind

theorem Stands.loop (stands : Stands around before) (atStatement : around.AtStatement) :
    Stands (.loop :: around) { before with loopDepth := before.loopDepth + 1 } where
  context := stands.context
  outside := stands.outside
  initializer := stands.initializer
  loopDepth := by simp [Regions.inLoop]
  pending name := by
    have none : Regions.initializing? (.loop :: around) = around.initializing? :=
      atStatement.initializing?_eq_none.symm
    rw [none]
    exact stands.pending name
  known := stands.known
  classKind := stands.classKind

/-- Behind the body of a loop. -/
theorem Stands.leaveLoop (stands : Stands (.loop :: inner) before)
    (atStatement : inner.AtStatement) {depth : Nat} (inside : before.loopDepth = depth + 1)
    (outside : depth = 0 ↔ inner.inLoop = false) :
    Stands inner { before with loopDepth := before.loopDepth - 1 } where
  context := stands.context
  outside := stands.outside
  initializer := stands.initializer
  loopDepth := by simp [inside, outside]
  pending name := by
    rw [atStatement.initializing?_eq_none]
    exact stands.pending name
  known := stands.known
  classKind := stands.classKind

/-- Around the methods of a base class. -/
theorem Placed.base (placed : Placed around before) :
    Stands (.methods false :: around)
      { before with scopes := .implicit "this" :: before.scopes, classKind := .base } where
  context := congrArg (List.cons ["this"]) placed.context
  outside := placed.outside
  initializer := placed.initializer
  loopDepth := placed.loopDepth
  pending _ := by
    simp [inOwnInitializer, Scope.isPending, Scope.implicit, Regions.initializing?]
  known top := by cases top
  classKind := rfl

/-- Around the methods of a subclass. -/
theorem Placed.subclass (placed : Placed around before) :
    Stands (.methods true :: around)
      { before with
        scopes := .implicit "this" :: .implicit "super" :: before.scopes
        classKind := .subclass } where
  context := congrArg (fun outer => ["this"] :: ["super"] :: outer) placed.context
  outside := placed.outside
  initializer := placed.initializer
  loopDepth := placed.loopDepth
  pending _ := by
    simp [inOwnInitializer, Scope.isPending, Scope.implicit, Regions.initializing?]
  known top := by cases top
  classKind := rfl

/-- In front of a program. -/
theorem stands_top (atTop : AtTop before) (settled : Settled before.globals) {names : List String}
    (known : ∀ name, before.globals.find? name = none ↔ name ∉ names) :
    Stands [.program names] before where
  context := by
    rw [atTop.scopes]
    rfl
  outside := by simp [atTop.functionKind, Regions.function?]
  initializer := by simp [atTop.functionKind, Regions.function?]
  loopDepth := by simp [atTop.loopDepth, Regions.inLoop]
  pending name := by simp [inOwnInitializer, atTop.scopes, settled name, Regions.initializing?]
  known _ := known
  classKind := atTop.classKind

end Binding

end Lox
