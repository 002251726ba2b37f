import Mathlib.Logic.Function.Iterate
import Lox.Proofs.Unfolding.Stack

/-!
Contract: one step of a program, and the steps of the program with loops written out.

The lemmas follow the step function: each construct goes on alike in both runs. Only where a loop
is written out the second run takes more steps: two into a round, for the block around it; one
more to the increment, which is a statement now; and up to four out of the block.

The main statement is `Abreast.next`.

Owns: the simulation. Does not own: runs and programs.
-/

set_option autoImplicit false

namespace Lox.Lexical

variable {pair : Pair} {free : Bool}

/-- The second machine arrives at the same, or does so with more steps. -/
def CatchesUp (machine other : Machine) : Prop :=
  Arrives machine other ∨ ∃ more, Abreast machine (Machine.next^[more] other)

/-! ## Results -/

section Results

variable {stack stack' : Stack .value}

theorem arrives_ofResult (holds : pair.Holds free stack stack')
    {expected found : Except Mishap Value} (both : Result.Alike Mishap.Alike expected found) :
    Arrives (Machine.ofResult pair.world stack expected)
      (Machine.ofResult pair.other stack' found) := by
  cases both with
  | ok alike => exact .abreast (.answer holds alike)
  | error alike => exact holds.failed alike

theorem arrives_ofOperation (holds : pair.Holds free stack stack')
    {expected found : Except Fault.Violation Value} (both : Result.Alike Eq expected found)
    {span span' : Span} :
    Arrives (Machine.ofOperation pair.world span stack expected)
      (Machine.ofOperation pair.other span' stack' found) := by
  cases both with
  | ok alike => exact .abreast (.answer holds alike)
  | error same =>
      obtain rfl := same
      exact holds.failed .violation

end Results

/-! ## Sequences and activations -/

section Activations

variable {stack stack' : Stack .flow}

theorem arrives_statements (holds : pair.Holds free stack stack') {body body' : List Stmt}
    (unfold : StmtsUnfold body body') (level : pair.Level pair.world.scope pair.other.scope)
    (continues : continuesAny body = true → free = true) :
    Arrives (Machine.statements pair.world stack body)
      (Machine.statements pair.other stack' body') := by
  cases unfold with
  | nil => exact .abreast (.finish holds .normal (by simp))
  | cons unfolds unfoldRest =>
      have goesOn : pair.Holds free (.push (.sequence _) stack) (.push (.sequence _) stack') :=
        ⟨holds.alike, holds.seated, .sequence unfoldRest level
          (fun later => continues (by simp [continuesAny, later])) holds.rests⟩
      exact .abreast (.execute goesOn unfolds (fun _ => level)
        fun now => continues (by simp [continuesAny, now]))

/-- Both runs go to scopes that are at the same point. -/
theorem Pair.Alike.goTo (alike : pair.Alike) {awaited : Awaited}
    {scope scope' : Option EnvironmentRef} {rest rest' : Stack awaited}
    (seated : pair.Seated scope scope') (rests : StacksAlike pair free scope scope' rest rest') :
    Pair.Holds ⟨pair.partners, pair.world.goTo scope, pair.other.goTo scope'⟩ free rest rest' :=
  have follows : Pair.Follows none pair
      ⟨pair.partners, pair.world.goTo scope, pair.other.goTo scope'⟩ := .of_same rfl rfl rfl
  { alike := { alike with }
    seated := follows.seated_undeclaring seated
    rests := rests.follow_undeclaring follows }

/-- Both runs make an activation and enter it. -/
theorem Pair.Holds.enter (holds : pair.Holds free stack stack') {outer outer' : Place}
    (places : PlacesAlike pair.partners outer outer') (names : List String)
    {values values' : List Value} (both : List.Forall₂ Value.Alike values values') {after : Pair}
    (made : after = ⟨pair.partners ++ [pair.other.activations.size],
      (pair.world.activate outer names values).2.goTo
        (some (pair.world.activate outer names values).1),
      (pair.other.activate outer' names values').2.goTo
        (some (pair.other.activate outer' names values').1)⟩) :
    after.Level after.world.scope after.other.scope ∧
      after.Holds free (.push (.leave pair.world.scope) stack)
        (.push (.leave pair.other.scope) stack') := by
  subst made
  obtain ⟨alike, follows, link⟩ := holds.alike.activate places names both rfl
  have outside : Outside pair.world.scope (some (pair.world.activate outer names values).1) :=
    fun ref inside => ⟨_, rfl, holds.seated.inRange holds.alike ref inside⟩
  refine ⟨.linked link, alike.goTo (.level (.linked link)) (.leave outside ?_ ?_)⟩
  · exact follows.seated_undeclaring holds.seated
  · exact holds.rests.follow_undeclaring follows

theorem arrives_inActivation (holds : pair.Holds free stack stack') {outer outer' : Place}
    (places : PlacesAlike pair.partners outer outer') (names : List String)
    {values values' : List Value} (both : List.Forall₂ Value.Alike values values')
    {body body' : List Stmt} (unfold : StmtsUnfold body body')
    (continues : continuesAny body = true → free = true) :
    Arrives (Machine.inActivation pair.world outer names values body stack)
      (Machine.inActivation pair.other outer' names values' body' stack') := by
  obtain ⟨level, entered⟩ := holds.enter places names both rfl
  exact arrives_statements entered unfold level continues

end Activations

/-! ## Calls -/

section Calls

variable {stack stack' : Stack .value} {arguments arguments' : List Value} {span span' : Span}

theorem arrives_enterFunction (holds : pair.Holds free stack stack') {function function' : Function}
    (alike : function.Alike function') (both : List.Forall₂ Value.Alike arguments arguments') :
    Arrives (Machine.enterFunction pair.world function arguments span stack)
      (Machine.enterFunction pair.other function' arguments' span' stack') := by
  have ends : pair.Holds true (.push (.body function span) stack)
      (.push (.body function' span') stack') :=
    ⟨holds.alike, holds.seated, .body alike holds.rests⟩
  have entered := arrives_inActivation ends (holds.alike.home alike)
    (function.declaration.parameters.map Name.text) both alike.declaration.body fun _ => rfl
  simp only [Machine.enterFunction, alike.declaration.parameters]
  exact entered

theorem arrives_construct (holds : pair.Holds free stack stack') {origin origin' : Class}
    (alike : origin.Alike origin') (both : List.Forall₂ Value.Alike arguments arguments') :
    Arrives (Machine.construct pair.world origin arguments span stack)
      (Machine.construct pair.other origin' arguments' span' stack') := by
  obtain ⟨alikeMade, follows, objects⟩ := holds.alike.makeInstance alike
  have made := holds.follow alikeMade follows rfl rfl
  have initializers := alike.initializer?
  simp only [Machine.construct]
  revert initializers
  generalize origin.initializer? = initializer
  generalize origin'.initializer? = initializer'
  rintro (methods | _)
  · obtain ⟨partners, alikeBound, followsBound, bound⟩ := alikeMade.bindMethod methods objects
    have bindings := made.follow alikeBound followsBound rfl rfl
    exact arrives_enterFunction (bindings.push (.construct objects) rfl rfl) bound both
  · exact .abreast (.answer made (.instance objects))

theorem arrives_callNative (holds : pair.Holds free stack stack') (native : Native)
    (both : List.Forall₂ Value.Alike arguments arguments') :
    Arrives (Machine.callNative pair.world native arguments span stack)
      (Machine.callNative pair.other native arguments' span' stack') := by
  simp only [Machine.callNative, holds.alike.natives]
  cases found : pair.world.natives[native.number]? with
  | none => exact holds.failed .violation
  | some operation =>
      have discreet := holds.alike.discreet operation (Array.mem_of_getElem? found)
      have ticks : Pair.Alike ⟨pair.partners, pair.world.tick, pair.other.tick⟩ :=
        { holds.alike with moment := congrArg (· + 1) holds.alike.moment }
      have goesOn := holds.follow ticks (.of_same rfl rfl rfl) rfl rfl
      have answered := discreet pair.world.moment arguments arguments' both
      simp only [holds.alike.moment]
      revert answered
      generalize operation.answer pair.world.moment arguments = result
      generalize operation.answer pair.world.moment arguments' = result'
      rintro (values | same)
      · exact .abreast (.answer goesOn values)
      · obtain rfl := same
        exact goesOn.failed .violation

theorem arrives_start (holds : pair.Holds free stack stack') {callable callable' : Callable}
    (alike : callable.Alike callable') (both : List.Forall₂ Value.Alike arguments arguments') :
    Arrives (Machine.start pair.world callable arguments span stack)
      (Machine.start pair.other callable' arguments' span' stack') := by
  cases alike with
  | function alike => exact arrives_enterFunction holds alike both
  | native native => exact arrives_callNative holds native both
  | «class» alike => exact arrives_construct holds alike both

/-- Both runs are at another depth of calls. -/
theorem Pair.Holds.callDepth {awaited : Awaited} {rest rest' : Stack awaited}
    (holds : pair.Holds free rest rest') {depth depth' : Nat} (same : depth' = depth) :
    Pair.Holds ⟨pair.partners, { pair.world with callDepth := depth },
      { pair.other with callDepth := depth' }⟩ free rest rest' :=
  holds.follow { holds.alike with callDepth := same } (.of_same rfl rfl rfl) rfl rfl

theorem arrives_invoke (holds : pair.Holds free stack stack') {callable callable' : Callable}
    (alike : callable.Alike callable') (both : List.Forall₂ Value.Alike arguments arguments') :
    Arrives (Machine.invoke pair.world callable arguments span stack)
      (Machine.invoke pair.other callable' arguments' span' stack') := by
  have sameTest : pair.other.callLimit ≤ pair.other.callDepth ↔
      pair.world.callLimit ≤ pair.world.callDepth := by
    rw [holds.alike.callLimit, holds.alike.callDepth]
  unfold Machine.invoke
  by_cases deep : pair.world.callLimit ≤ pair.world.callDepth
  · rw [if_pos deep, if_pos (sameTest.mpr deep)]
    exact holds.failed .stackOverflow
  · rw [if_neg deep, if_neg (sameTest.not.mpr deep)]
    have deeper := holds.callDepth (congrArg (· + 1) holds.alike.callDepth)
    exact arrives_start (deeper.push .call rfl rfl) alike both

theorem arrives_callValue (holds : pair.Holds free stack stack') {callee callee' : Value}
    (alike : callee.Alike callee') (both : List.Forall₂ Value.Alike arguments arguments') :
    Arrives (Machine.callValue pair.world callee arguments span stack)
      (Machine.callValue pair.other callee' arguments' span' stack') := by
  have callables := alike.callable?
  simp only [Machine.callValue]
  revert callables
  generalize callee.callable? = callable
  generalize callee'.callable? = callable'
  rintro (alike | _)
  · simp only [alike.arity, ← both.length_eq]
    split
    · exact arrives_invoke holds alike both
    · exact holds.failed .violation
  · exact holds.failed .violation

end Calls

/-! ## Properties -/

section Properties

variable {stack stack' : Stack .value} {receiver receiver' : Instance}

theorem arrives_boundMethod (holds : pair.Holds free stack stack') {method method' : Function}
    (alike : method.Alike method') (receivers : receiver.Alike receiver') {span span' : Span} :
    Arrives (Machine.boundMethod pair.world method receiver span stack)
      (Machine.boundMethod pair.other method' receiver' span' stack') := by
  obtain ⟨partners, alikeBound, follows, bound⟩ := holds.alike.bindMethod alike receivers
  have bindings := holds.follow alikeBound follows rfl rfl
  simp only [Machine.boundMethod, bound.declaration.isGetter]
  split
  · exact arrives_invoke bindings (.function bound) .nil
  · exact .abreast (.answer bindings (.function bound))

theorem arrives_methodOf (holds : pair.Holds free stack stack') {origin origin' : Class}
    (alike : origin.Alike origin') (receivers : receiver.Alike receiver') {name name' : Name}
    (same : name'.text = name.text) :
    Arrives (Machine.methodOf pair.world origin receiver name stack)
      (Machine.methodOf pair.other origin' receiver' name' stack') := by
  have methods := alike.method? name.text
  simp only [Machine.methodOf, same]
  revert methods
  generalize origin.method? name.text = method
  generalize origin'.method? name.text = method'
  rintro (both | _)
  · exact arrives_boundMethod holds both receivers
  · exact holds.failed .violation

theorem arrives_property (holds : pair.Holds free stack stack')
    (receivers : receiver.Alike receiver') {name name' : Name} (same : name'.text = name.text) :
    Arrives (Machine.property pair.world receiver name stack)
      (Machine.property pair.other receiver' name' stack') := by
  have fields := holds.alike.field? receivers name.text
  simp only [Machine.property, same]
  revert fields
  generalize pair.world.field? receiver name.text = field
  generalize pair.other.field? receiver' name.text = field'
  rintro (both | _)
  · exact .abreast (.answer holds both)
  · exact arrives_methodOf holds receivers.origin receivers same

theorem arrives_superMethod (holds : pair.Holds free stack stack') {name name' : Name}
    (same : name'.text = name.text) {span span' : Span} :
    Arrives (Machine.superMethod pair.world name span stack)
      (Machine.superMethod pair.other name' span' stack') := by
  have superclasses := holds.alike.read holds.seated "super" span span'
  have receivers := holds.alike.read holds.seated "this" span span'
  simp only [Machine.superMethod]
  revert superclasses receivers
  generalize pair.world.read "super" span = superclass
  generalize pair.other.read "super" span' = superclass'
  generalize pair.world.read "this" span = receiver
  generalize pair.other.read "this" span' = receiver'
  rintro (alikeClass | mishaps) receivers
  · cases alikeClass with
    | «class» inherited =>
        cases receivers with
        | ok alikeReceiver =>
            cases alikeReceiver with
            | «instance» objects => exact arrives_methodOf holds inherited objects same
            | _ => exact holds.failed .violation
        | error mishaps => exact holds.failed mishaps
    | _ => exact holds.failed .violation
  · exact holds.failed mishaps

end Properties

/-! ## Expressions -/

theorem arrives_beginExpr {stack stack' : Stack .value} (holds : pair.Holds free stack stack')
    {expr expr' : Expr} (unfolds : expr.Unfolds expr') :
    Arrives (Machine.beginExpr pair.world stack expr)
      (Machine.beginExpr pair.other stack' expr') := by
  cases unfolds with
  | literal => exact .abreast (.answer holds (.refl _))
  | grouping unfolds => exact .abreast (.evaluate holds unfolds)
  | «variable» same =>
      simp only [Machine.beginExpr, same]
      exact arrives_ofResult holds (holds.alike.read holds.seated _ _ _)
  | assign same unfolds =>
      exact .abreast (.evaluate (holds.push (.assign same) rfl rfl) unfolds)
  | unary unfolds => exact .abreast (.evaluate (holds.push .unary rfl rfl) unfolds)
  | binary unfoldsLeft unfoldsRight =>
      exact .abreast (.evaluate (holds.push (.leftOperand unfoldsRight) rfl rfl) unfoldsLeft)
  | logical unfoldsLeft unfoldsRight =>
      exact .abreast (.evaluate (holds.push (.logical unfoldsRight) rfl rfl) unfoldsLeft)
  | call unfolds unfoldsArguments =>
      exact .abreast (.evaluate (holds.push (.callee unfoldsArguments) rfl rfl) unfolds)
  | get unfolds same => exact .abreast (.evaluate (holds.push (.property same) rfl rfl) unfolds)
  | set unfolds same unfoldsValue =>
      exact .abreast (.evaluate (holds.push (.fieldObject same unfoldsValue) rfl rfl) unfolds)
  | this => exact arrives_ofResult holds (holds.alike.read holds.seated "this" _ _)
  | super same => exact arrives_superMethod holds same
  | lambda unfolds =>
      have made := holds.follow (holds.alike.pushHome (holds.seated.places holds.alike))
        Pair.follows_pushHome rfl rfl
      exact .abreast (.answer made (.function (holds.alike.makeFunction unfolds false)))

/-! ## Declarations -/

section Declarations

variable {stack stack' : Stack .flow}

private theorem scope_define (world : World) (name : String) (value : Value) :
    (world.define name value).scope = world.scope := by
  unfold World.define
  split <;> rfl

private theorem scope_announce (world : World) (name : String) :
    (world.announce name).scope = world.scope := by
  unfold World.announce
  split <;> rfl

private theorem scope_assign (world : World) (name : String) (value : Value) :
    (world.assign name value).scope = world.scope := by
  unfold World.assign
  split <;> rfl

private theorem scope_makeMethods (home : Place) (methods : List FunctionDeclaration)
    (world : World) : (World.makeMethods home methods world).2.scope = world.scope := by
  induction methods generalizing world with
  | nil => rfl
  | cons _ _ inductionHypothesis => exact inductionHypothesis _

private theorem scope_makeClass (world : World) (name : String) (superclass : Option Class)
    (home : Place) (methods : List FunctionDeclaration) :
    (world.makeClass name superclass home methods).2.scope = world.scope :=
  scope_makeMethods home methods world

theorem arrives_define (holds : pair.Holds free stack stack')
    (level : pair.Level pair.world.scope pair.other.scope) (name : String) {value value' : Value}
    (both : value.Alike value') :
    Arrives (.finish (pair.world.define name value) .normal stack)
      (.finish (pair.other.define name value') .normal stack') := by
  obtain ⟨alike, follows⟩ := holds.alike.define level name both
  have defined := holds.behind level alike follows (scope_define _ _ _) (scope_define _ _ _)
  exact .abreast (.finish defined .normal (by simp))

/-- Both runs make a name known in scopes that are partners. -/
theorem Pair.Holds.announce {awaited : Awaited} {rest rest' : Stack awaited}
    (holds : pair.Holds free rest rest') (level : pair.Level pair.world.scope pair.other.scope)
    (name : String) {after : Pair}
    (made : after = ⟨pair.partners, pair.world.announce name, pair.other.announce name⟩) :
    after.Holds free rest rest' ∧ after.Level after.world.scope after.other.scope := by
  subst made
  obtain ⟨alike, follows⟩ := holds.alike.announce level name
  refine ⟨holds.behind level alike follows (scope_announce _ _) (scope_announce _ _), ?_⟩
  dsimp only
  rw [scope_announce, scope_announce]
  exact follows.level level

theorem arrives_declareClass (holds : pair.Holds free stack stack')
    (level : pair.Level pair.world.scope pair.other.scope) {name name' : Name}
    (same : name'.text = name.text) {superclass superclass' : Option Class}
    (inherited : Option.Rel Class.Alike superclass superclass') {home home' : Place}
    (places : PlacesAlike pair.partners home home') {methods methods' : List FunctionDeclaration}
    (unfold : FunctionsUnfold methods methods') :
    Arrives (Machine.declareClass pair.world name superclass home methods stack)
      (Machine.declareClass pair.other name' superclass' home' methods' stack') := by
  obtain ⟨alike, follows, made⟩ := holds.alike.makeClass places unfold name.text inherited
  have here := scope_makeClass pair.world name.text superclass home methods
  have here' := scope_makeClass pair.other name.text superclass' home' methods'
  have standing := holds.follow alike follows here here'
  have levelMade := follows.level level
  simp only [Machine.declareClass, same]
  refine arrives_define standing ?_ name.text (.class made)
  dsimp only
  rw [here, here']
  exact levelMade

theorem arrives_executeClass (holds : pair.Holds free stack stack')
    (level : pair.Level pair.world.scope pair.other.scope) {name name' : Name}
    (same : name'.text = name.text) {superclass superclass' : Option Reference}
    (sameSuperclass : superclass'.map (·.name.text) = superclass.map (·.name.text))
    {methods methods' : List FunctionDeclaration} (unfold : FunctionsUnfold methods methods') :
    Arrives (Machine.executeClass pair.world name superclass methods stack)
      (Machine.executeClass pair.other name' superclass' methods' stack') := by
  have places := holds.seated.places holds.alike
  cases superclass with
  | none =>
      cases superclass' with
      | none => exact arrives_declareClass holds level same .none places unfold
      | some reference' => cases sameSuperclass
  | some reference =>
      cases superclass' with
      | none => cases sameSuperclass
      | some reference' =>
          have sameText : reference'.name.text = reference.name.text :=
            Option.some.inj sameSuperclass
          have values := holds.alike.read holds.seated reference.name.text reference.name.span
            reference'.name.span
          simp only [Machine.executeClass, sameText]
          revert values
          generalize pair.world.read reference.name.text reference.name.span = value
          generalize pair.other.read reference.name.text reference'.name.span = value'
          rintro (alike | mishaps)
          · cases alike with
            | «class» inherited =>
                obtain ⟨alikeMade, follows, link⟩ :=
                  holds.alike.activate places ["super"] (.cons (.class inherited) .nil) rfl
                have made := holds.follow alikeMade follows rfl rfl
                exact arrives_declareClass made (follows.level level) same (.some inherited)
                  (.linked link (places.mono follows.partners)) unfold
            | _ => exact holds.failed .violation
          · exact holds.failed mishaps

end Declarations

/-! ## Statements -/

theorem arrives_beginStmt {stack stack' : Stack .flow} (holds : pair.Holds free stack stack')
    {stmt stmt' : Stmt} (unfolds : stmt.Unfolds stmt')
    (declares : stmt.declares ≠ [] → pair.Level pair.world.scope pair.other.scope)
    (continues : stmt.continues = true → free = true) :
    Arrives (Machine.beginStmt pair.world stack stmt)
      (Machine.beginStmt pair.other stack' stmt') := by
  cases unfolds with
  | expression unfolds => exact .abreast (.evaluate (holds.push .discard rfl rfl) unfolds)
  | print unfolds => exact .abreast (.evaluate (holds.push .print rfl rfl) unfolds)
  | @var name name' _ _ _ _ same unfolds =>
      have level := declares (by simp [Stmt.declares])
      cases unfolds with
      | none =>
          simp only [Machine.beginStmt, same]
          exact arrives_define holds level name.text .nil
      | some unfolds =>
          obtain ⟨announced, levelAfter⟩ := holds.announce level name.text rfl
          simp only [Machine.beginStmt, same]
          exact .abreast (.evaluate ⟨announced.alike, announced.seated,
            .value (.declare same) (fun _ => levelAfter)
              (fun never => absurd never Bool.false_ne_true) announced.rests⟩ unfolds)
  | block unfold =>
      exact arrives_inActivation holds (holds.seated.places holds.alike) [] .nil unfold
        fun inside => continues (by simpa [Stmt.continues] using inside)
  | conditional unfoldsCondition unfoldsThen unfoldsElse =>
      refine .abreast (.evaluate ⟨holds.alike, holds.seated,
        .value (.branch unfoldsThen unfoldsElse) ?_ ?_ holds.rests⟩ unfoldsCondition)
      · exact fun some => declares (by simpa [Stmt.declares, Frame.declares] using some)
      · exact fun inside => continues (by simpa [Stmt.continues, Frame.continues] using inside)
  | loop unfoldsCondition unfoldsBody unfoldsIncrement =>
      refine .abreast (.evaluate ⟨holds.alike, holds.seated,
        .value (.condition ⟨unfoldsCondition, unfoldsBody, unfoldsIncrement⟩) ?_
          (fun never => absurd never Bool.false_ne_true) holds.rests⟩ unfoldsCondition)
      exact fun some => declares (by simpa [Stmt.declares, Frame.declares] using some)
  | writtenOut unfoldsCondition unfoldsBody unfoldsIncrement undeclaring notContinuing =>
      exact .abreast (.evaluate (holds.push (.conditionWrittenOut
        (.mk unfoldsCondition unfoldsBody unfoldsIncrement undeclaring notContinuing))
          undeclaring rfl) unfoldsCondition)
  | @function declaration declaration' _ _ unfolds =>
      have level := declares (by simp [Stmt.declares])
      obtain ⟨announced, levelAfter⟩ := holds.announce level declaration.name.text rfl
      have made := announced.follow
        (announced.alike.pushHome (announced.seated.places announced.alike))
        Pair.follows_pushHome rfl rfl
      simp only [Machine.beginStmt, unfolds.name]
      exact arrives_define made (Pair.follows_pushHome.level levelAfter) declaration.name.text
        (.function (announced.alike.makeFunction unfolds false))
  | «return» unfolds =>
      cases unfolds with
      | none => exact .abreast (.finish holds (.return .nil) (by simp))
      | some unfolds => exact .abreast (.evaluate (holds.push .return rfl rfl) unfolds)
  | @«class» name _ _ _ _ _ _ _ same sameSuperclass unfold =>
      have level := declares (by simp [Stmt.declares])
      obtain ⟨announced, levelAfter⟩ := holds.announce level name.text rfl
      simp only [Machine.beginStmt, same]
      exact arrives_executeClass announced levelAfter same sameSuperclass unfold
  | «break» => exact .abreast (.finish holds .break (by simp))
  | «continue» =>
      exact .abreast (.finish holds .continue fun _ => continues (by simp [Stmt.continues]))

/-! ## Frames that await a value -/

theorem arrives_nextArgument {stack stack' : Stack .value} (holds : pair.Holds free stack stack')
    {callee callee' : Value} (alike : callee.Alike callee') {before before' : List Value}
    (both : List.Forall₂ Value.Alike before before') {others others' : List Expr}
    (unfold : ExprsUnfold others others') {span span' : Span} :
    Arrives (Machine.nextArgument pair.world callee before others span stack)
      (Machine.nextArgument pair.other callee' before' others' span' stack') := by
  cases unfold with
  | nil => exact arrives_callValue holds alike (List.rel_reverse both)
  | cons unfolds unfoldRest =>
      exact .abreast (.evaluate (holds.push (.argument alike both unfoldRest) rfl rfl) unfolds)

theorem arrives_assign {stack stack' : Stack .value} (holds : pair.Holds free stack stack')
    {target target' : Reference} (same : target'.name.text = target.name.text)
    {value value' : Value} (both : value.Alike value') :
    Arrives (Machine.giveValue pair.world value (.assign target) stack)
      (Machine.giveValue pair.other value' (.assign target') stack') := by
  have mishaps := holds.alike.assignmentMishap? holds.seated target.name.text target.name.span
    target'.name.span
  simp only [Machine.giveValue, same]
  cases found : pair.world.assignmentMishap? target.name.text target.name.span with
  | none =>
      rw [found] at mishaps
      cases found' : pair.other.assignmentMishap? target.name.text target'.name.span with
      | none =>
          obtain ⟨alike, follows⟩ := holds.alike.assign holds.seated found both
          have assigned := holds.follow alike follows (scope_assign ..) (scope_assign ..)
          exact .abreast (.answer assigned both)
      | some mishap =>
          rw [found'] at mishaps
          cases mishaps
  | some mishap =>
      rw [found] at mishaps
      cases found' : pair.other.assignmentMishap? target.name.text target'.name.span with
      | none =>
          rw [found'] at mishaps
          cases mishaps
      | some mishap' =>
          rw [found'] at mishaps
          cases mishaps with
          | some both => exact holds.failed both

/-- The condition of a loop is about to be evaluated. -/
theorem abreast_testLoop {stack stack' : Stack .flow} (holds : pair.Holds free stack stack')
    {loop loop' : Loop} (unfolds : loop.Unfolds loop')
    (declares : loop.body.declares ≠ [] → pair.Level pair.world.scope pair.other.scope) :
    Abreast (Machine.testLoop pair.world loop stack) (Machine.testLoop pair.other loop' stack') :=
  .evaluate ⟨holds.alike, holds.seated, .value (.condition unfolds) declares
    (fun never => absurd never Bool.false_ne_true) holds.rests⟩ unfolds.condition

/-- The condition of a loop that is written out is about to be evaluated. -/
theorem abreast_testLoop_writtenOut {stack stack' : Stack .flow}
    (holds : pair.Holds free stack stack') {loop loop' : Loop} (writtenOut : loop.WrittenOut loop') :
    Abreast (Machine.testLoop pair.world loop stack) (Machine.testLoop pair.other loop' stack') := by
  obtain ⟨unfoldsCondition, unfoldsBody, unfoldsIncrement, undeclaring, notContinuing⟩ := writtenOut
  exact .evaluate (holds.push (.conditionWrittenOut
    (.mk unfoldsCondition unfoldsBody unfoldsIncrement undeclaring notContinuing)) undeclaring rfl)
      unfoldsCondition

/-- A round of a loop that is written out: the second run enters the block around it. -/
theorem abreast_writtenOut {stack stack' : Stack .flow} (holds : pair.Holds free stack stack')
    {loop loop' : Loop} (writtenOut : loop.WrittenOut loop') :
    Abreast (.execute pair.world loop.body (.push (.round loop) stack))
      (Machine.beginStmt pair.other (.push (.round loop') stack') loop'.body) := by
  obtain ⟨alike, follows, between⟩ := holds.alike.activateOwn holds.seated rfl
  have rests := holds.rests.follow_undeclaring follows
  cases writtenOut with
  | mk unfoldsCondition unfoldsBody unfoldsIncrement undeclaring notContinuing =>
      refine .execute (alike.goTo (.between between) (.ownRound
        (.mk unfoldsCondition unfoldsBody unfoldsIncrement undeclaring notContinuing)
        (.some unfoldsIncrement) between (follows.seated_undeclaring holds.seated) rests)) unfoldsBody
          (fun some => absurd undeclaring some) ?_
      exact fun continues => absurd (notContinuing.symm.trans continues) Bool.false_ne_true

theorem catchesUp_giveValue {outcome : Awaited} {frame frame' : Frame .value outcome}
    {stack stack' : Stack outcome} (holds : pair.Holds free stack stack')
    (frames : frame.Alike frame')
    (declares : frame.declares ≠ [] → pair.Level pair.world.scope pair.other.scope)
    (continues : frame.continues = true → free = true) {value value' : Value}
    (both : value.Alike value') :
    CatchesUp (Machine.giveValue pair.world value frame stack)
      (Machine.giveValue pair.other value' frame' stack') := by
  cases frames with
  | assign same => exact .inl (arrives_assign holds same both)
  | @unary operator span span' =>
      exact .inl (arrives_ofOperation holds (operator.alike_apply both))
  | leftOperand unfolds =>
      exact .inl (.abreast (.evaluate (holds.push (.rightOperand both) rfl rfl) unfolds))
  | @rightOperand operator _ _ _ _ alike =>
      exact .inl (arrives_ofOperation holds (operator.alike_apply alike both))
  | @logical operator right right' unfolds =>
      refine .inl ?_
      simp only [Machine.giveValue, operator.isDecidedBy_alike both]
      split
      · exact .abreast (.answer holds both)
      · exact .abreast (.evaluate holds unfolds)
  | callee unfold => exact .inl (arrives_nextArgument holds both .nil unfold)
  | argument alikeCallee alikeBefore unfold =>
      exact .inl (arrives_nextArgument holds alikeCallee (.cons both alikeBefore) unfold)
  | property same =>
      refine .inl ?_
      cases both with
      | «instance» alike => exact arrives_property holds alike same
      | _ => exact holds.failed .violation
  | fieldObject same unfolds =>
      refine .inl ?_
      cases both with
      | «instance» alike =>
          exact .abreast (.evaluate (holds.push (.fieldValue alike same) rfl rfl) unfolds)
      | _ => exact holds.failed .violation
  | @fieldValue _ _ name name' alike same =>
      obtain ⟨alikeAfter, follows⟩ := holds.alike.setField alike name.text both
      refine .inl ?_
      simp only [Machine.giveValue, same]
      exact .abreast (.answer (holds.follow alikeAfter follows rfl rfl) both)
  | discard => exact .inl (.abreast (.finish holds .normal (by simp)))
  | print =>
      refine .inl ?_
      have sameSink : pair.other.sink = pair.world.sink := by
        simp only [World.sink, holds.alike.outlet, holds.alike.written]
      simp only [Machine.giveValue, World.printMishap?, sameSink, both.display]
      cases pair.world.sink.writeFailure with
      | some reason => exact holds.failed .output
      | none =>
          have printed : Pair.Alike ⟨pair.partners, pair.world.print value.display,
              pair.other.print value.display⟩ :=
            { holds.alike with
              written := congrArg (Array.push · value.display) holds.alike.written
              printed := congrArg (Array.push · value.display) holds.alike.printed }
          have goesOn := holds.follow printed (.of_same rfl rfl rfl) rfl rfl
          exact .abreast (.finish goesOn .normal (by simp))
  | @declare name name' same =>
      refine .inl ?_
      simp only [Machine.giveValue, same]
      exact arrives_define holds (declares (by simp [Frame.declares])) name.text both
  | @branch thenBranch _ elseBranch _ unfoldsThen unfoldsElse =>
      refine .inl ?_
      simp only [Machine.giveValue, both.isTruthy]
      split
      · refine .abreast (.execute holds unfoldsThen (fun some => declares ?_)
          fun inside => continues ?_)
        · simp [Frame.declares, some]
        · simp [Frame.continues, inside]
      · cases unfoldsElse with
        | none => exact .abreast (.finish holds .normal (by simp))
        | some unfolds =>
            refine .abreast (.execute holds unfolds (fun some => declares ?_)
              fun inside => continues ?_)
            · simp [Frame.declares, declaresOfOptionalStmt, some]
            · simp [Frame.continues, continuesOptional, inside]
  | @condition loop loop' unfolds =>
      refine .inl ?_
      simp only [Machine.giveValue, both.isTruthy]
      split
      · have rounds : pair.Holds true (.push (.round loop) stack) (.push (.round loop') stack') :=
          ⟨holds.alike, holds.seated, .round unfolds declares holds.rests⟩
        exact .abreast (.execute rounds unfolds.body declares fun _ => rfl)
      · exact .abreast (.finish holds .normal (by simp))
  | @conditionWrittenOut loop loop' writtenOut =>
      simp only [Machine.giveValue, both.isTruthy]
      split
      · exact .inr ⟨1, abreast_writtenOut holds writtenOut⟩
      · exact .inl (.abreast (.finish holds .normal (by simp)))
  | increment unfolds => exact .inl (.abreast (abreast_testLoop holds unfolds declares))
  | «return» => exact .inl (.abreast (.finish holds (.return both) (by simp)))
  | construct alike => exact .inl (.abreast (.answer holds (.instance alike)))
  | call =>
      have shallower := holds.callDepth (congrArg (· - 1) holds.alike.callDepth)
      exact .inl (.abreast (.answer shallower both))

/-! ## Frames that await a flow -/

theorem arrives_endBody {stack stack' : Stack .value} (holds : pair.Holds free stack stack')
    {function function' : Function} (alike : function.Alike function') {span span' : Span}
    {flow flow' : Flow} (flows : flow.Alike flow') :
    Arrives (Machine.endBody pair.world function span flow stack)
      (Machine.endBody pair.other function' span' flow' stack') := by
  simp only [Machine.endBody, alike.isInitializer]
  split
  · exact arrives_ofResult holds
      (holds.alike.readFrom (holds.alike.home alike) "this" span span')
  · cases flows with
    | «return» both => exact .abreast (.answer holds both)
    | _ => exact .abreast (.answer holds .nil)

theorem arrives_round {stack stack' : Stack .flow} (holds : pair.Holds free stack stack')
    {loop loop' : Loop} (unfolds : loop.Unfolds loop')
    (declares : loop.body.declares ≠ [] → pair.Level pair.world.scope pair.other.scope)
    {flow flow' : Flow} (flows : flow.Alike flow') :
    Arrives (Machine.giveFlow pair.world flow (.round loop) stack)
      (Machine.giveFlow pair.other flow' (.round loop') stack') := by
  have again : Arrives (Machine.giveFlow pair.world .normal (.round loop) stack)
      (Machine.giveFlow pair.other .normal (.round loop') stack') := by
    have increments := unfolds.increment
    simp only [Machine.giveFlow]
    revert increments
    generalize loop.increment = increment
    generalize loop'.increment = increment'
    rintro (_ | unfoldsIncrement)
    · exact .abreast (abreast_testLoop holds unfolds declares)
    · exact .abreast (.evaluate ⟨holds.alike, holds.seated, .value (.increment unfolds) declares
        (fun never => absurd never Bool.false_ne_true) holds.rests⟩ unfoldsIncrement)
  cases flows with
  | normal => exact again
  | «continue» => exact again
  | «break» => exact .abreast (.finish holds .normal (by simp))
  | «return» both => exact .abreast (.finish holds (.return both) (by simp))

/-- The end of a round of a loop that is written out. -/
theorem catchesUp_ownRound {stack stack' : Stack .flow} {own : EnvironmentRef}
    {previous' : Option EnvironmentRef} {loop loop' : Loop} {increment' : Expr} (span : Span)
    (alike : pair.Alike) (inside : pair.other.scope = some own) (writtenOut : loop.WrittenOut loop')
    (unfolds : OptionalExprUnfolds loop.increment (some increment'))
    (between : pair.Between pair.world.scope own) (seated : pair.Seated pair.world.scope previous')
    (rests : StacksAlike pair free pair.world.scope previous' stack stack') {flow flow' : Flow}
    (flows : flow.Alike flow') (notContinue : flow ≠ .continue) :
    CatchesUp (Machine.giveFlow pair.world flow (.round loop) stack)
      (Machine.giveFlow pair.other flow' (.sequence [.expression increment' span])
        (.push (.leave previous') (.push (.round loop') stack'))) := by
  cases flows with
  | normal =>
      simp only [Machine.giveFlow]
      revert unfolds
      generalize increments : loop.increment = increment
      rintro (_ | unfoldsIncrement)
      have goesOn : pair.Holds free (.push (.increment loop) stack)
          (.push .discard (.push (.sequence []) (.push (.leave previous')
            (.push (.round loop') stack')))) :=
        ⟨alike, by rw [inside]; exact .between between,
          by rw [inside]; exact .ownIncrement writtenOut between seated rests⟩
      exact .inr ⟨1, .evaluate goesOn unfoldsIncrement⟩
  | «continue» => exact absurd rfl notContinue
  | «break» =>
      exact .inr ⟨2, .finish (alike.goTo seated rests) .normal (by simp)⟩
  | «return» both =>
      exact .inr ⟨2, .finish (alike.goTo seated rests) (.return both) (by simp)⟩

/-- The end of the increment of a loop that is written out. -/
theorem abreast_ownIncrement {stack stack' : Stack .flow} {previous' : Option EnvironmentRef}
    {loop loop' : Loop} (alike : pair.Alike) (writtenOut : loop.WrittenOut loop')
    (seated : pair.Seated pair.world.scope previous')
    (rests : StacksAlike pair free pair.world.scope previous' stack stack') (value value' : Value) :
    Abreast (Machine.giveValue pair.world value (.increment loop) stack)
      (Machine.next^[3] (Machine.giveValue pair.other value' .discard
        (.push (.sequence []) (.push (.leave previous') (.push (.round loop') stack'))))) := by
  have back := abreast_testLoop_writtenOut (alike.goTo seated rests) writtenOut
  cases writtenOut with
  | mk => exact back

/-! ## Steps -/

/-- A value meets the stacks. -/
theorem catchesUp_answer {stack stack' : Stack .value} (holds : pair.Holds free stack stack')
    {value value' : Value} (both : value.Alike value')
    (going : Machine.isDone (.answer pair.world value stack) = false) :
    CatchesUp (Machine.answer pair.world value stack).next
      (Machine.answer pair.other value' stack').next := by
  obtain ⟨alike, seated, rests⟩ := holds
  generalize here : pair.world.scope = scope at rests
  generalize there : pair.other.scope = scope' at rests
  cases rests with
  | empty => cases going
  | value frames declares continues rests =>
      subst here there
      exact catchesUp_giveValue ⟨alike, seated, rests⟩ frames declares continues both
  | ownIncrement writtenOut between seatedBehind rests =>
      subst here
      exact .inr ⟨3, abreast_ownIncrement alike writtenOut seatedBehind rests value value'⟩

/-- The end of a statement meets the stacks. -/
theorem catchesUp_finish {stack stack' : Stack .flow} (holds : pair.Holds free stack stack')
    {flow flow' : Flow} (flows : flow.Alike flow') (continues : flow = .continue → free = true)
    (going : Machine.isDone (.finish pair.world flow stack) = false) :
    CatchesUp (Machine.finish pair.world flow stack).next
      (Machine.finish pair.other flow' stack').next := by
  obtain ⟨alike, seated, rests⟩ := holds
  generalize here : pair.world.scope = scope at rests
  generalize there : pair.other.scope = scope' at rests
  cases rests with
  | empty => cases going
  | sequence unfold level continuesLater rests =>
      subst here there
      refine .inl ?_
      cases flows with
      | normal => exact arrives_statements ⟨alike, seated, rests⟩ unfold level continuesLater
      | «continue» => exact .abreast (.finish ⟨alike, seated, rests⟩ .continue continues)
      | «break» => exact .abreast (.finish ⟨alike, seated, rests⟩ .break continues)
      | «return» both => exact .abreast (.finish ⟨alike, seated, rests⟩ (.return both) continues)
  | leave outside seatedBehind rests =>
      exact .inl (.abreast (.finish (alike.goTo seatedBehind rests) flows continues))
  | round unfolds declares rests =>
      subst here there
      exact .inl (arrives_round ⟨alike, seated, rests⟩ unfolds declares flows)
  | body alikeFunction rests =>
      subst here there
      exact .inl (arrives_endBody ⟨alike, seated, rests⟩ alikeFunction flows)
  | @ownRound _ _ _ _ _ _ _ span _ _ writtenOut unfolds between seatedBehind rests =>
      subst here
      exact catchesUp_ownRound span alike there writtenOut unfolds between seatedBehind rests flows
        fun same => Bool.false_ne_true (continues same)

/-- Machines that are about to do the same arrive at the same, the second one with as many steps
as it needs; they fail in the same step. -/
theorem Abreast.next {machine other : Machine} (abreast : Abreast machine other)
    (going : machine.isDone = false) :
    CatchesUp machine.next other.next := by
  cases abreast with
  | evaluate holds unfolds => exact .inl (arrives_beginExpr holds unfolds)
  | execute holds unfolds declares continues =>
      exact .inl (arrives_beginStmt holds unfolds declares continues)
  | answer holds both => exact catchesUp_answer holds both going
  | finish holds flows continues => exact catchesUp_finish holds flows continues going

end Lox.Lexical
