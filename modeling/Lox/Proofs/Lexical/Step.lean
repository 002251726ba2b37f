import Lox.Proofs.Lexical.Mirror

/-!
Contract: one step by name mirrors one step by slot.

The lemmas follow the two step functions: each construct keeps machines mirrored that
are so before it. The main statement is `Mirrors.next`; `Mirrors.run` takes any number
of steps.

Owns: the simulation. Does not own: programs and sessions.
-/

set_option autoImplicit false

namespace Lox.Lexical

open Binding Lox.Lexical.World

variable {outlet : Outlet} {world : World}

/-! ## Results -/

theorem mirrors_ofResult {stack : Stack .value} (ready : world.Ready outlet)
    (fits : world.Fits world.setting stack) {expected : Except Mishap Value}
    {found : Except Fault Value} (agree : Agree outlet expected found)
    (known : ∀ value, expected = .ok value → world.Knows value) :
    Mirrors outlet (Machine.ofResult world stack expected)
      (Lox.Machine.ofResult world.erase stack found) := by
  cases expected with
  | ok value =>
      cases found with
      | ok other =>
          obtain rfl : value = other := agree
          exact .answer ready (known value rfl) fits
      | error fault => exact agree.elim
  | error mishap =>
      cases found with
      | ok other => exact agree.elim
      | error fault => exact .raise ready.sound agree

theorem mirrors_ofOperation {stack : Stack .value} (ready : world.Ready outlet)
    (fits : world.Fits world.setting stack) {result : Except Fault.Violation Value} {span : Span}
    (known : ∀ value, result = .ok value → world.Knows value) :
    Mirrors outlet (Machine.ofOperation world span stack result)
      (Lox.Machine.ofOperation world.erase span stack result) := by
  cases result with
  | ok value => exact .answer ready (known value rfl) fits
  | error violation => exact .raise ready.sound rfl

theorem knows_unary {operator : UnaryOperator} {operand value : Value}
    (applied : operator.apply operand = .ok value) : world.Knows value := by
  unfold UnaryOperator.apply at applied
  split at applied
  · obtain rfl := Except.ok.inj applied
    trivial
  · cases applied
  · obtain rfl := Except.ok.inj applied
    trivial

theorem knows_onNumbers {operation : Float → Float → Value} {left right value : Value}
    (plain : ∀ x y, world.Knows (operation x y))
    (applied : onNumbers operation left right = .ok value) : world.Knows value := by
  unfold onNumbers at applied
  split at applied
  · obtain rfl := Except.ok.inj applied
    exact plain _ _
  · cases applied

theorem knows_binary {operator : BinaryOperator} {left right value : Value}
    (applied : operator.apply left right = .ok value) : world.Knows value := by
  cases operator with
  | add =>
      simp only [BinaryOperator.apply] at applied
      unfold addValues at applied
      split at applied
      · obtain rfl := Except.ok.inj applied
        trivial
      · obtain rfl := Except.ok.inj applied
        trivial
      · cases applied
  | equal =>
      obtain rfl := Except.ok.inj applied
      trivial
  | notEqual =>
      obtain rfl := Except.ok.inj applied
      trivial
  | _ =>
      refine knows_onNumbers ?_ applied
      intro _ _
      trivial

theorem knows_literal (literal : Literal) : world.Knows literal.value := by
  cases literal <;> trivial

/-! ## Sequences and activations -/

theorem mirrors_statements {stack : Stack .flow} {body : List Stmt} (ready : world.Ready outlet)
    (noneWaits : world.setting.pending = none) (bound : boundStmts world.setting.context body)
    (fits : ∀ context, world.Fits { world.setting with context := context } stack) :
    Mirrors outlet (Machine.statements world stack body)
      (Lox.Machine.statements world.erase stack body) := by
  cases body with
  | nil => exact .finish ready trivial (fits world.setting.context)
  | cons first others =>
      refine .execute ready noneWaits bound.1 ⟨⟨noneWaits, bound.2⟩, ?_⟩
      rintro ⟨scope, pending, context⟩ ⟨sameScope, samePending⟩
      obtain rfl : scope = world.setting.scope := sameScope
      obtain rfl : pending = world.setting.pending := samePending
      exact fits context

/-- What is so in a new activation. -/
theorem activate_spec {outer : Place} {names : List String} {values : List Value}
    (ready : world.Ready outlet) (knownOuter : world.KnowsPlace outer)
    (lengths : names.length = values.length) (distinct : names.Nodup)
    (plain : ∀ name ∈ names, Plain name) (known : ∀ value ∈ values, world.Knows value)
    {ref : EnvironmentRef} {inside : World}
    (made : world.activate outer names values = (ref, inside)) :
    Keeps outlet world inside ∧ (inside.goTo (some ref)).Ready outlet ∧
      (inside.goTo (some ref)).setting = ⟨some ref, none, names :: viewFrom outer⟩ ∧
      Outside world.scope (some ref) ∧
      (inside.goTo (some ref)).erase = world.erase.enter (innermost outer) values.toArray := by
  have knownEntries : ∀ entry ∈ names.zip values, world.KnowsEntry entry := by
    intro entry member
    obtain ⟨named, valued⟩ := List.of_mem_zip member
    exact (known entry.2 valued).entry (plain entry.1 named)
  have keeps := keeps_activate ready knownOuter lengths distinct knownEntries
  have setting := settingAt_activate world outer lengths
  have forest := erase_activate world outer names values lengths
  have number := fst_activate world outer names values (innermost outer) values.toArray
  have fresh : ref = world.activations.size := (congrArg Prod.fst made).symm
  have present : ref < inside.activations.size := by
    have grown := congrArg (fun result => result.2.activations.size) made
    simp only [activate, Array.size_push] at grown
    rw [fresh, ← grown]
    exact Nat.lt_succ_self _
  rw [made] at keeps setting forest number
  refine ⟨keeps, keeps.ready.goTo ?_, setting, ?_, ?_⟩
  · intro other here
    obtain rfl : ref = other := Option.some.inj here
    exact present
  · -- The new activation is further in than all that exist.
    intro other there
    exact ⟨ref, rfl, fresh ▸ ready.inScope other there⟩
  · change { inside.erase with scope := some ref } = _
    rw [forest, show ref = _ from number]
    rfl

theorem mirrors_inActivation {outer : Place} (names : List String) (values : List Value)
    {body : List Stmt} {stack : Stack .flow} (ready : world.Ready outlet)
    (knownOuter : world.KnowsPlace outer) (lengths : names.length = values.length)
    (distinct : names.Nodup) (plain : ∀ name ∈ names, Plain name)
    (known : ∀ value ∈ values, world.Knows value)
    (bound : boundStmts (names :: viewFrom outer) body)
    (fits : world.Fits world.setting stack) :
    Mirrors outlet (Machine.inActivation world outer names values body stack)
      (Lox.Machine.inEnvironment world.erase (innermost outer) values.toArray body stack) := by
  obtain ⟨ref, inside, made⟩ : ∃ ref inside, world.activate outer names values = (ref, inside) :=
    ⟨_, _, rfl⟩
  obtain ⟨keeps, entered, setting, outside, erased⟩ :=
    activate_spec ready knownOuter lengths distinct plain known made
  have fitsEntered : ∀ context, (inside.goTo (some ref)).Fits
      { (inside.goTo (some ref)).setting with context := context }
      (.push (.leave world.scope) stack) := by
    intro context
    refine ⟨outside, ?_⟩
    intro behind leads
    have back : inside.settingAt world.scope = inside.setting := by
      rw [World.setting, keeps.scope]
      rfl
    obtain rfl : behind = inside.setting := Eq.trans leads back
    exact Fits.mono (keeps.fits ready fits) (.of_same rfl rfl rfl rfl) fun _ _ => rfl
  have noneWaits := congrArg Setting.pending setting
  have boundHere : boundStmts (inside.goTo (some ref)).setting.context body := by
    rw [setting]
    exact bound
  have body := mirrors_statements entered noneWaits boundHere fitsEntered
  rw [erased] at body
  simp only [Machine.inActivation, made]
  exact body

/-! ## Calls -/

theorem mirrors_enterFunction {function : Function} {arguments : List Value} {span : Span}
    {stack : Stack .value} (ready : world.Ready outlet) (knownFunction : world.KnowsFunction function)
    (known : ∀ value ∈ arguments, world.Knows value)
    (arity : arguments.length = function.arity) (fits : world.Fits world.setting stack) :
    Mirrors outlet (Machine.enterFunction world function arguments span stack)
      (Lox.Machine.enterFunction world.erase function arguments span stack) := by
  obtain ⟨distinct, plain, _, bound⟩ := (boundFunction_iff _ _).mp knownFunction.bound
  have lengths : (function.declaration.parameters.map Name.text).length = arguments.length := by
    rw [List.length_map]
    exact arity.symm
  have plainNames : ∀ name ∈ function.declaration.parameters.map Name.text, Plain name := by
    intro name member
    obtain ⟨parameter, among, rfl⟩ := List.mem_map.mp member
    exact plain parameter among
  have fitsBody : world.Fits world.setting (.push (.body function span) stack) := by
    refine ⟨knownFunction, ?_⟩
    intro behind leads
    obtain rfl : behind = world.setting := leads
    exact fits
  have entered := mirrors_inActivation (function.declaration.parameters.map Name.text) arguments
    ready knownFunction.home lengths distinct plainNames known bound fitsBody
  rw [← knownFunction.closure] at entered
  exact entered

/-- A frame under which the setting stays as it is. -/
theorem fits_push {awaited outcome : Awaited} {frame : Frame awaited outcome}
    {stack : Stack outcome} {setting : Setting} (admits : world.Admits setting frame)
    (stays : ∀ behind, world.Leads setting behind frame → behind = setting)
    (fits : world.Fits setting stack) : world.Fits setting (.push frame stack) := by
  refine ⟨admits, ?_⟩
  intro behind leads
  rw [stays behind leads]
  exact fits

theorem mirrors_construct {origin : Class} {arguments : List Value} {span : Span}
    {stack : Stack .value} (ready : world.Ready outlet) (knownClass : world.KnowsClass origin)
    (known : ∀ value ∈ arguments, world.Knows value)
    (arity : arguments.length = (Callable.class origin).arity)
    (fits : world.Fits world.setting stack) :
    Mirrors outlet (Machine.construct world origin arguments span stack)
      (Lox.Machine.construct world.erase origin arguments span stack) := by
  obtain ⟨object, made, makes⟩ : ∃ object made, world.makeInstance origin = (object, made) :=
    ⟨_, _, rfl⟩
  have shadow : world.erase.makeInstance origin = (object, made.erase) := by
    obtain ⟨rfl, rfl⟩ := Prod.mk.inj makes
    rfl
  have sameOrigin : object.origin = origin := by
    obtain ⟨rfl, _⟩ := Prod.mk.inj makes
    rfl
  have keeps := keeps_makeInstance ready origin
  rw [makes] at keeps
  have knownObject : made.KnowsClass object.origin := sameOrigin ▸ knownClass.mono keeps.grows
  simp only [Machine.construct, Lox.Machine.construct, makes, shadow]
  cases initializes : origin.initializer? with
  | none => exact .answer keeps.ready knownObject (keeps.fits ready fits)
  | some initializer =>
      have knownMethod := (knownClass.initializer? initializes).mono keeps.grows
      obtain ⟨keepsBound, knownBound⟩ := bindMethod_spec keeps.ready knownMethod knownObject
      obtain ⟨sameBound, sameWorld⟩ := erase_bindMethod made knownMethod.closure object
      have grows := keeps.grows.trans keepsBound.grows
      have arityBound : arguments.length = (made.bindMethod initializer object).1.arity := by
        rw [arity]
        simp only [Callable.arity, initializes]
        rfl
      have fitsConstruct : (made.bindMethod initializer object).2.Fits
          (made.bindMethod initializer object).2.setting (.push (.construct object) stack) := by
        have fitsBound := keepsBound.fits keeps.ready (keeps.fits ready fits)
        exact fits_push (knownObject.mono keepsBound.grows) (fun _ leads => leads) fitsBound
      have knownThere : ∀ value ∈ arguments,
          (made.bindMethod initializer object).2.Knows value :=
        fun value member => (known value member).mono grows
      simp only [← sameBound, ← sameWorld]
      exact mirrors_enterFunction keepsBound.ready knownBound knownThere arityBound fitsConstruct

theorem mirrors_callNative {native : Native} {arguments : List Value} {span : Span}
    {stack : Stack .value} (ready : world.Ready outlet) (present : native.number < world.natives.size)
    (known : ∀ value ∈ arguments, world.Knows value) (fits : world.Fits world.setting stack) :
    Mirrors outlet (Machine.callNative world native arguments span stack)
      (Lox.Machine.callNative world.erase native arguments span stack) := by
  have found : world.natives[native.number]? = some world.natives[native.number] :=
    Array.getElem?_eq_getElem present
  have answers := ready.sound.natives native.number _ found
  have keeps := keeps_tick ready
  have sameNatives : world.erase.natives = world.natives := rfl
  have sameMoment : world.erase.moment = world.moment := rfl
  simp only [Machine.callNative, Lox.Machine.callNative, sameNatives, sameMoment, found]
  cases answered : world.natives[native.number].answer world.moment arguments with
  | error message => exact .raise keeps.ready.sound rfl
  | ok result =>
      have knownResult : world.Knows result :=
        Knows.of_from (fun value given => given.elim (known value) id)
          (answers world.moment arguments result answered)
      exact .answer keeps.ready (knownResult.mono keeps.grows) (keeps.fits ready fits)

/-- All that the callable is made of is known. -/
def World.KnowsCallable (world : World) : Callable → Prop
  | .function function => world.KnowsFunction function
  | .native native => native.number < world.natives.size
  | .class origin => world.KnowsClass origin

theorem mirrors_invoke {callable : Callable} {arguments : List Value} {span : Span}
    {stack : Stack .value} (ready : world.Ready outlet) (knownCallable : world.KnowsCallable callable)
    (known : ∀ value ∈ arguments, world.Knows value)
    (arity : arguments.length = callable.arity) (fits : world.Fits world.setting stack) :
    Mirrors outlet (Machine.invoke world callable arguments span stack)
      (Lox.Machine.invoke world.erase callable arguments span stack) := by
  have sameLimit : world.erase.callLimit = world.callLimit := rfl
  have sameDepth : world.erase.callDepth = world.callDepth := rfl
  simp only [Machine.invoke, Lox.Machine.invoke, sameLimit, sameDepth]
  split
  · exact .raise ready.sound rfl
  · have keeps := keeps_callDepth ready (world.callDepth + 1)
    have knownDeeper : ∀ value ∈ arguments,
        World.Knows { world with callDepth := world.callDepth + 1 } value :=
      fun value member => (known value member).mono keeps.grows
    have fitsCall : World.Fits { world with callDepth := world.callDepth + 1 }
        (World.setting { world with callDepth := world.callDepth + 1 }) (.push .call stack) :=
      fits_push trivial (fun _ leads => leads) (keeps.fits ready fits)
    cases callable with
    | function function =>
        exact mirrors_enterFunction keeps.ready (KnowsFunction.mono knownCallable keeps.grows)
          knownDeeper arity fitsCall
    | «class» origin =>
        exact mirrors_construct keeps.ready (KnowsClass.mono knownCallable keeps.grows) knownDeeper
          arity fitsCall
    | native native => exact mirrors_callNative keeps.ready knownCallable knownDeeper fitsCall

theorem mirrors_callValue {callee : Value} {arguments : List Value} {span : Span}
    {stack : Stack .value} (ready : world.Ready outlet) (knownCallee : world.Knows callee)
    (known : ∀ value ∈ arguments, world.Knows value) (fits : world.Fits world.setting stack) :
    Mirrors outlet (Machine.callValue world callee arguments span stack)
      (Lox.Machine.callValue world.erase callee arguments span stack) := by
  simp only [Machine.callValue, Lox.Machine.callValue]
  cases callable : callee.callable? with
  | none => exact .raise ready.sound rfl
  | some found =>
      have knownCallable : world.KnowsCallable found := by
        cases callee with
        | function function =>
            obtain rfl := Option.some.inj callable
            exact knownCallee
        | native native =>
            obtain rfl := Option.some.inj callable
            exact knownCallee
        | «class» origin =>
            obtain rfl := Option.some.inj callable
            exact knownCallee
        | _ => cases callable
      by_cases arity : arguments.length = found.arity
      · simp only [arity, if_true]
        exact mirrors_invoke ready knownCallable known arity fits
      · simp only [arity, if_false]
        exact .raise ready.sound rfl

/-! ## Properties -/

theorem mirrors_boundMethod {method : Function} {receiver : Instance} {span : Span}
    {stack : Stack .value} (ready : world.Ready outlet) (knownMethod : world.KnowsMethod method)
    (knownReceiver : world.KnowsClass receiver.origin) (fits : world.Fits world.setting stack) :
    Mirrors outlet (Machine.boundMethod world method receiver span stack)
      (Lox.Machine.boundMethod world.erase method receiver span stack) := by
  obtain ⟨keeps, known⟩ := bindMethod_spec ready knownMethod knownReceiver
  obtain ⟨sameBound, sameWorld⟩ := erase_bindMethod world knownMethod.closure receiver
  simp only [Machine.boundMethod, Lox.Machine.boundMethod, ← sameBound, ← sameWorld]
  split
  · next getter =>
      -- A getter has no parameters.
      have noParameters := ((boundFunction_iff _ _).mp known.bound).2.2.1 getter
      have arity : ([] : List Value).length =
          (Callable.function (world.bindMethod method receiver).1).arity := by
        simp only [Callable.arity, Function.arity]
        rw [noParameters]
        rfl
      have noArguments : ∀ value ∈ ([] : List Value),
          (world.bindMethod method receiver).2.Knows value := by
        simp
      exact mirrors_invoke keeps.ready known noArguments arity (keeps.fits ready fits)
  · exact .answer keeps.ready known (keeps.fits ready fits)

theorem mirrors_methodOf {origin : Class} {receiver : Instance} {name : Name}
    {stack : Stack .value} (ready : world.Ready outlet) (knownClass : world.KnowsClass origin)
    (knownReceiver : world.KnowsClass receiver.origin) (fits : world.Fits world.setting stack) :
    Mirrors outlet (Machine.methodOf world origin receiver name stack)
      (Lox.Machine.methodOf world.erase origin receiver name stack) := by
  simp only [Machine.methodOf, Lox.Machine.methodOf]
  cases found : origin.method? name.text with
  | none => exact .raise ready.sound rfl
  | some method => exact mirrors_boundMethod ready (knownClass.method? found) knownReceiver fits

theorem knows_of_field? (sound : world.Sound outlet) {object : Instance} {name : String} {value : Value}
    (found : world.field? object name = some value) : world.Knows value := by
  obtain ⟨fields, there, entry⟩ := Option.bind_eq_some_iff.mp found
  exact sound.fields object.identity fields there _ (Table.mem_of_find? entry)

theorem mirrors_property {object : Instance} {name : Name} {stack : Stack .value}
    (ready : world.Ready outlet) (known : world.KnowsClass object.origin)
    (fits : world.Fits world.setting stack) :
    Mirrors outlet (Machine.property world object name stack)
      (Lox.Machine.property world.erase object name stack) := by
  have sameField : world.erase.field? object name.text = world.field? object name.text := rfl
  simp only [Machine.property, Lox.Machine.property, sameField]
  cases found : world.field? object name.text with
  | none => exact mirrors_methodOf ready known known fits
  | some value => exact .answer ready (knows_of_field? ready.sound found) fits

theorem mirrors_superMethod {address : Option Address} {method : Name} {span : Span}
    {stack : Stack .value} (ready : world.Ready outlet) (inherits : Inherits world.setting.context)
    (bound : address = addressIn "super" world.setting.context)
    (fits : world.Fits world.setting stack) :
    Mirrors outlet (Machine.superMethod world method span stack)
      (Lox.Machine.superMethod world.erase address method span stack) := by
  obtain ⟨depth, superAddress, thisAddress⟩ := inherits.addresses
  obtain ⟨superclass, superFound, knownSuper, superBehind⟩ := read_super ready superAddress span
  obtain ⟨receiver, thisFound, knownReceiver, thisBehind⟩ := read_this ready thisAddress span
  rw [bound, superAddress]
  simp only [Machine.superMethod, Lox.Machine.superMethod, superFound, superBehind, thisFound,
    thisBehind]
  exact mirrors_methodOf ready knownSuper knownReceiver fits

/-! ## Expressions -/

theorem mirrors_beginExpr {expr : Expr} {stack : Stack .value} (ready : world.Ready outlet)
    (bound : expr.Bound world.setting.context) (fits : world.Fits world.setting stack) :
    Mirrors outlet (Machine.beginExpr world stack expr)
      (Lox.Machine.beginExpr world.erase stack expr) := by
  cases expr with
  | literal value span => exact .answer ready (knows_literal value) fits
  | grouping inner span => exact .evaluate ready bound fits
  | «variable» reference =>
      exact mirrors_ofResult ready fits (agree_readVariable ready bound)
        fun _ found => knows_of_read ready.sound found
  | assign target value span =>
      obtain ⟨boundTarget, plain, boundValue⟩ := bound
      exact .evaluate ready boundValue
        (fits_push ⟨boundTarget, plain⟩ (fun _ leads => leads) fits)
  | unary operator operand span =>
      exact .evaluate ready bound (fits_push trivial (fun _ leads => leads) fits)
  | binary operator left right span =>
      exact .evaluate ready bound.1 (fits_push bound.2 (fun _ leads => leads) fits)
  | logical operator left right span =>
      exact .evaluate ready bound.1 (fits_push bound.2 (fun _ leads => leads) fits)
  | call callee arguments span =>
      exact .evaluate ready bound.1 (fits_push bound.2 (fun _ leads => leads) fits)
  | get object name => exact .evaluate ready bound (fits_push trivial (fun _ leads => leads) fits)
  | set object name value span =>
      exact .evaluate ready bound.1 (fits_push bound.2 (fun _ leads => leads) fits)
  | this address span =>
      obtain ⟨receiver, rfl⟩ := bound
      obtain ⟨depth, addressed⟩ := receiver.address
      rw [addressed]
      exact mirrors_ofResult ready fits (agree_readLocal ready addressed span)
        fun _ found => knows_of_read ready.sound found
  | super address method span => exact mirrors_superMethod ready bound.1 bound.2 fits
  | lambda function =>
      have keeps := keeps_pushHome ready world.place
      have known := knows_makeFunction ready.knowsPlace bound false (by simp)
      have sameWorld := erase_makeFunction world function world.place false
      have sameMade := fst_makeFunction world function world.place false
      rw [ready.innermost_place] at sameWorld sameMade
      have shadow : Lox.Machine.beginExpr world.erase stack (.lambda function) =
          .answer (world.makeFunction function world.place false).2.erase
            (.function (world.makeFunction function world.place false).1) stack := by
        rw [sameWorld, sameMade]
        rfl
      rw [shadow]
      exact .answer keeps.ready known (keeps.fits ready fits)

/-! ## Declarations -/

/-- When a name is known and waits, all is as before but for the name. -/
theorem announce_spec {name : String} {stack : Stack .flow} (ready : world.Ready outlet)
    (noneWaits : world.setting.pending = none)
    (new : Plain name ∧ Undeclared name world.setting.context)
    (fits : world.Fits
      { world.setting with context := declareIn name world.setting.context } stack)
    {announced : World} (announces : world.announce name = announced) :
    announced.Ready outlet ∧ announced.setting.pending = announced.scope.map (fun _ => name) ∧
      announced.setting.context = declareIn name world.setting.context ∧
      announced.Fits { announced.setting with pending := none } stack ∧
      announced.erase = world.erase := by
  have becomes := becomes_announce ready new.1 noneWaits new.2
  have erased := erase_announce ready noneWaits new.2
  rw [announces] at becomes erased
  have sameScope : announced.scope = world.scope := becomes.scope
  refine ⟨becomes.ready, ?_, congrArg Setting.context becomes.setting, ?_, erased⟩
  · rw [becomes.setting, sameScope]
  · have fitsAfter := becomes.fits ready rfl fits
    rw [becomes.setting]
    dsimp only at fitsAfter ⊢
    rw [noneWaits] at fitsAfter
    exact fitsAfter

theorem mirrors_define {name : String} (value : Value) {stack : Stack .flow}
    (ready : world.Ready outlet) (plain : Plain name)
    (waits : world.setting.pending = world.scope.map fun _ => name) (known : world.Knows value)
    (fits : world.Fits { world.setting with pending := none } stack) :
    Mirrors outlet (.finish (world.define name value) .normal stack)
      (.finish (world.erase.define name value) .normal stack) := by
  have becomes := becomes_define ready waits plain known
  have erased := erase_define ready waits value
  have fitsAfter := becomes.fits ready rfl fits
  rw [← becomes.setting] at fitsAfter
  rw [← erased]
  exact .finish becomes.ready trivial fitsAfter

theorem mirrors_declareClass {name : Name} (superclass : Option Class) {home : Place}
    {methods : List FunctionDeclaration} {stack : Stack .flow} (ready : world.Ready outlet)
    (plain : Plain name.text)
    (waits : world.setting.pending = world.scope.map fun _ => name.text)
    (knownHome : world.KnowsPlace home)
    (bound : boundFunctions (["this"] :: viewFrom home) methods)
    (inherited : ∀ cls ∈ superclass, world.KnowsClass cls)
    (fits : world.Fits { world.setting with pending := none } stack) :
    Mirrors outlet (Machine.declareClass world name superclass home methods stack)
      (Lox.Machine.declareClass world.erase name superclass (innermost home) methods stack) := by
  obtain ⟨keeps, known⟩ := makeClass_spec ready knownHome bound name.text inherited
  obtain ⟨sameClass, sameWorld⟩ := erase_makeClass world name.text superclass home methods
  have sameScope : (world.makeClass name.text superclass home methods).2.scope = world.scope :=
    keeps.scope
  have fitsMade := Becomes.fits keeps ready rfl fits
  rw [← keeps.setting] at fitsMade
  rw [← keeps.setting, ← sameScope] at waits
  simp only [Machine.declareClass, Lox.Machine.declareClass, ← sameClass, ← sameWorld]
  exact mirrors_define (.class _) keeps.ready plain waits known fitsMade

/-- A superclass that was read goes into an activation of `super`. -/
theorem activate_super_spec {superclass : Class} (ready : world.Ready outlet)
    (known : world.KnowsClass superclass) {ref : EnvironmentRef} {inside : World}
    (made : world.activate world.place ["super"] [.class superclass] = (ref, inside)) :
    Keeps outlet world inside ∧ inside.KnowsPlace (⟨ref, ["super"]⟩ :: world.place) ∧
      world.erase.allocate world.scope #[.class superclass] = (ref, inside.erase) := by
  have knownEntry : ∀ entry ∈ ["super"].zip [Value.class superclass], world.KnowsEntry entry := by
    intro entry member
    obtain rfl : entry = ("super", .class superclass) := by simpa using member
    have notThis : "super" = "this" → ∃ object, Value.class superclass = .instance object :=
      fun same => absurd same (by decide)
    exact ⟨known, notThis, fun _ => ⟨superclass, rfl⟩⟩
  have keeps := keeps_activate ready ready.knowsPlace rfl (List.pairwise_singleton _ _) knownEntry
  have place := knowsPlace_activate ["super"] [.class superclass] ready.knowsPlace rfl
  have erased := erase_activate world world.place ["super"] [.class superclass] rfl
  have number := fst_activate world world.place ["super"] [.class superclass] world.scope
    #[.class superclass]
  rw [ready.innermost_place] at erased
  rw [made] at keeps place erased number
  exact ⟨keeps, place, Prod.ext number.symm erased.symm⟩

theorem mirrors_executeClass {name : Name} {superclass : Option Reference}
    {methods : List FunctionDeclaration} {stack : Stack .flow} (ready : world.Ready outlet)
    (plain : Plain name.text)
    (waits : world.setting.pending = world.scope.map fun _ => name.text)
    (boundSuperclass : ∀ reference ∈ superclass, reference.Bound world.setting.context)
    (bound : boundFunctions (methodContext world.setting.context superclass) methods)
    (fits : world.Fits { world.setting with pending := none } stack) :
    Mirrors outlet (Machine.executeClass world name superclass methods stack)
      (Lox.Machine.executeClass world.erase name superclass methods stack) := by
  cases superclass with
  | none =>
      have declared := mirrors_declareClass none ready plain waits ready.knowsPlace
        bound (by simp) fits
      rw [ready.innermost_place] at declared
      exact declared
  | some reference =>
      have agree := agree_readVariable ready (boundSuperclass reference rfl)
      simp only [Machine.executeClass, Lox.Machine.executeClass]
      cases expected : world.read reference.name.text reference.name.span with
      | error mishap =>
          cases found : world.erase.readVariable reference with
          | ok other => simp [Agree, expected, found] at agree
          | error fault =>
              rw [expected, found] at agree
              exact .raise ready.sound agree
      | ok value =>
          have known := knows_of_read ready.sound expected
          have found : world.erase.readVariable reference = .ok value := by
            cases found : world.erase.readVariable reference with
            | ok other =>
                rw [expected, found] at agree
                exact congrArg Except.ok (Eq.symm agree)
            | error fault => simp [Agree, expected, found] at agree
          rw [found]
          cases value with
          | «class» inherited =>
              obtain ⟨ref, inside, made⟩ : ∃ ref inside,
                  world.activate world.place ["super"] [.class inherited] = (ref, inside) :=
                ⟨_, _, rfl⟩
              obtain ⟨keeps, place, shadow⟩ := activate_super_spec ready known made
              have sameScope : inside.scope = world.scope := keeps.scope
              -- The scope of `super` is only for the methods: the class is declared outside.
              have fitsInside := Becomes.fits keeps ready rfl fits
              rw [← keeps.setting] at fitsInside
              rw [← keeps.setting, ← sameScope] at waits
              have inheritedKnown : ∀ cls ∈ some inherited, inside.KnowsClass cls := by
                intro cls same
                obtain rfl := Option.some.inj same
                exact KnowsClass.mono known keeps.grows
              have erasedScope : world.erase.scope = world.scope := rfl
              simp only [made, erasedScope, shadow]
              exact mirrors_declareClass (some inherited) keeps.ready plain waits place bound
                inheritedKnown fitsInside
          | _ => exact .raise ready.sound rfl

/-! ## Statements -/

theorem mirrors_beginStmt {stmt : Stmt} {stack : Stack .flow} (ready : world.Ready outlet)
    (noneWaits : world.setting.pending = none) (bound : stmt.Bound world.setting.context)
    (fits : world.Fits
      { world.setting with context := stmt.contextAfter world.setting.context } stack) :
    Mirrors outlet (Machine.beginStmt world stack stmt)
      (Lox.Machine.beginStmt world.erase stack stmt) := by
  cases stmt with
  | expression value span =>
      exact .evaluate ready bound (fits_push noneWaits (fun _ leads => leads) fits)
  | print value span =>
      exact .evaluate ready bound (fits_push noneWaits (fun _ leads => leads) fits)
  | var name initializer span =>
      obtain ⟨announced, announces⟩ : ∃ announced, world.announce name.text = announced :=
        ⟨_, rfl⟩
      obtain ⟨readyAfter, waits, context, fitsAfter, erased⟩ :=
        announce_spec ready noneWaits bound.1 fits announces
      cases initializer with
      | none =>
          have defined := mirrors_define .nil readyAfter bound.1.1 waits trivial fitsAfter
          rw [erased] at defined
          have sameDefinition := define_announce world name.text .nil
          rw [announces] at sameDefinition
          rw [sameDefinition] at defined
          exact defined
      | some value =>
          have boundValue : value.Bound announced.setting.context := by
            rw [context]
            exact bound.2
          have fitsDeclare : announced.Fits announced.setting (.push (.declare name) stack) := by
            refine ⟨⟨bound.1.1, waits⟩, ?_⟩
            intro behind leads
            obtain rfl : behind = { announced.setting with pending := none } := leads
            exact fitsAfter
          simp only [Machine.beginStmt, Lox.Machine.beginStmt, announces, ← erased]
          exact .evaluate readyAfter boundValue fitsDeclare
  | block statements span =>
      have entered := mirrors_inActivation [] [] ready ready.knowsPlace rfl List.nodup_nil
        (by simp) (by simp) bound fits
      rw [ready.innermost_place] at entered
      exact entered
  | conditional condition thenBranch elseBranch span =>
      obtain ⟨boundCondition, boundThen, boundElse⟩ := bound
      exact .evaluate ready boundCondition
        (fits_push ⟨noneWaits, boundThen, boundElse⟩ (fun _ leads => leads) fits)
  | loop condition body increment span =>
      exact .evaluate ready bound.1
        (fits_push ⟨noneWaits, bound⟩ (fun _ leads => leads) fits)
  | function declaration span =>
      obtain ⟨announced, announces⟩ :
          ∃ announced, world.announce declaration.name.text = announced :=
        ⟨_, rfl⟩
      obtain ⟨readyAfter, waits, context, fitsAfter, erased⟩ :=
        announce_spec ready noneWaits bound.1 fits announces
      have boundHere : boundFunction (viewFrom announced.place) declaration := by
        have sameContext : viewFrom announced.place = declareIn declaration.name.text
          world.setting.context := context
        rw [sameContext]
        exact bound.2
      have keeps := keeps_pushHome readyAfter announced.place
      have known := knows_makeFunction readyAfter.knowsPlace boundHere false (by simp)
      have sameWorld := erase_makeFunction announced declaration announced.place false
      have sameMade := fst_makeFunction announced declaration announced.place false
      rw [readyAfter.innermost_place] at sameWorld sameMade
      have fitsMade := Becomes.fits keeps readyAfter rfl fitsAfter
      rw [← keeps.setting] at fitsMade waits
      have defined := mirrors_define (.function _) keeps.ready bound.1.1 waits known fitsMade
      have shadow : Lox.Machine.beginStmt announced.erase stack (.function declaration span) =
          .finish ((announced.makeFunction declaration announced.place false).2.erase.define
            declaration.name.text
            (.function (announced.makeFunction declaration announced.place false).1)) .normal
            stack := by
        rw [sameWorld, sameMade]
        rfl
      rw [← erased, shadow]
      simp only [Machine.beginStmt, announces]
      exact defined
  | «return» value span =>
      cases value with
      | none => exact .finish ready trivial fits
      | some value => exact .evaluate ready bound (fits_push noneWaits (fun _ leads => leads) fits)
  | «class» name superclass methods span =>
      obtain ⟨announced, announces⟩ : ∃ announced, world.announce name.text = announced :=
        ⟨_, rfl⟩
      obtain ⟨readyAfter, waits, context, fitsAfter, erased⟩ :=
        announce_spec ready noneWaits bound.1 fits announces
      have boundSuperclass : ∀ reference ∈ superclass, reference.Bound announced.setting.context := by
        rw [context]
        exact bound.2.1
      have boundMethods : boundFunctions (methodContext announced.setting.context superclass) methods := by
        rw [context]
        exact bound.2.2
      simp only [Machine.beginStmt, Lox.Machine.beginStmt, announces, ← erased]
      exact mirrors_executeClass readyAfter bound.1.1 waits boundSuperclass boundMethods fitsAfter
  | «break» span => exact .finish ready trivial fits
  | «continue» span => exact .finish ready trivial fits

/-! ## Frames that await a value -/

theorem mirrors_testLoop {loop : Loop} {stack : Stack .flow} (ready : world.Ready outlet)
    (noneWaits : world.setting.pending = none) (bound : loop.Bound world.setting.context)
    (fits : world.Fits world.setting stack) :
    Mirrors outlet (Machine.testLoop world loop stack)
      (Lox.Machine.testLoop world.erase loop stack) :=
  .evaluate ready bound.1 (fits_push ⟨noneWaits, bound⟩ (fun _ leads => leads) fits)

theorem mirrors_nextArgument {callee : Value} {before : List Value} {others : List Expr}
    {span : Span} {stack : Stack .value} (ready : world.Ready outlet) (knownCallee : world.Knows callee)
    (known : ∀ value ∈ before, world.Knows value) (bound : boundExprs world.setting.context others)
    (fits : world.Fits world.setting stack) :
    Mirrors outlet (Machine.nextArgument world callee before others span stack)
      (Lox.Machine.nextArgument world.erase callee before others span stack) := by
  cases others with
  | nil =>
      refine mirrors_callValue ready knownCallee ?_ fits
      intro value member
      exact known value (List.mem_reverse.mp member)
  | cons first rest =>
      exact .evaluate ready bound.1
        (fits_push ⟨knownCallee, known, bound.2⟩ (fun _ leads => leads) fits)

theorem mirrors_assign {target : Reference} {value : Value} {stack : Stack .value}
    (ready : world.Ready outlet) (bound : target.Bound world.setting.context)
    (plain : Plain target.name.text) (known : world.Knows value)
    (fits : world.Fits world.setting stack) :
    Mirrors outlet (Machine.giveValue world value (.assign target) stack)
      (Lox.Machine.giveValue world.erase value (.assign target) stack) := by
  simp only [Machine.giveValue, Lox.Machine.giveValue]
  obtain ⟨mishap, fault, expected, found, shows⟩ | ⟨expected, found, assigns⟩ :=
    assign_spec ready bound plain
  · simp only [expected, found]
    exact .raise ready.sound shows
  · obtain ⟨keeps, erased⟩ := assigns value known
    simp only [expected, found, ← erased]
    exact .answer keeps.ready (known.mono keeps.grows) (keeps.fits ready fits)

theorem mirrors_giveValue {value : Value} {outcome : Awaited} {frame : Frame .value outcome}
    {stack : Stack outcome} (ready : world.Ready outlet) (known : world.Knows value)
    (fits : world.Fits world.setting (.push frame stack)) :
    Mirrors outlet (Machine.giveValue world value frame stack)
      (Lox.Machine.giveValue world.erase value frame stack) := by
  obtain ⟨admits, goesOn⟩ := fits
  cases frame with
  | assign target => exact mirrors_assign ready admits.1 admits.2 known (goesOn _ rfl)
  | unary operator span =>
      exact mirrors_ofOperation ready (goesOn _ rfl) fun _ applied => knows_unary applied
  | leftOperand operator right span =>
      exact .evaluate ready admits (fits_push known (fun _ leads => leads) (goesOn _ rfl))
  | rightOperand operator left span =>
      exact mirrors_ofOperation ready (goesOn _ rfl) fun _ applied => knows_binary applied
  | logical operator right =>
      simp only [Machine.giveValue, Lox.Machine.giveValue]
      split
      · exact .answer ready known (goesOn _ rfl)
      · exact .evaluate ready admits (goesOn _ rfl)
  | callee arguments span =>
      exact mirrors_nextArgument ready known (by simp) admits (goesOn _ rfl)
  | argument callee before others span =>
      obtain ⟨knownCallee, knownBefore, bound⟩ := admits
      refine mirrors_nextArgument ready knownCallee ?_ bound (goesOn _ rfl)
      intro argument member
      obtain rfl | earlier := List.mem_cons.mp member
      · exact known
      · exact knownBefore argument earlier
  | property name =>
      cases value with
      | «instance» object => exact mirrors_property ready known (goesOn _ rfl)
      | _ => exact .raise ready.sound rfl
  | fieldObject name right =>
      cases value with
      | «instance» object =>
          exact .evaluate ready admits (fits_push trivial (fun _ leads => leads) (goesOn _ rfl))
      | _ => exact .raise ready.sound rfl
  | fieldValue object name =>
      have keeps := keeps_setField ready object name.text known
      exact .answer keeps.ready (known.mono keeps.grows) (keeps.fits ready (goesOn _ rfl))
  | discard => exact .finish ready trivial (goesOn _ rfl)
  | print span =>
      simp only [Machine.giveValue, Lox.Machine.giveValue, printMishap?, World.printFault?]
      have sameSink : world.erase.sink = world.sink := rfl
      rw [sameSink]
      cases fails : world.sink.writeFailure with
      | some reason =>
          refine .raise ready.sound ⟨⟨world.written, .inl ?_⟩, rfl⟩
          rw [← ready.sound.outlet]
          exact fails
      | none =>
          have keeps := keeps_print ready value.display
          exact .finish keeps.ready trivial (keeps.fits ready (goesOn _ rfl))
  | declare name => exact mirrors_define value ready admits.1 admits.2 known (goesOn _ rfl)
  | branch thenBranch elseBranch =>
      obtain ⟨noneWaits, boundThen, boundElse⟩ := admits
      have chosen {stmt : Stmt} (bound : stmt.Bound world.setting.context)
          (undeclaring : stmt.declared? = none) :
          Mirrors outlet (.execute world stmt stack) (.execute world.erase stmt stack) := by
        refine .execute ready noneWaits bound ?_
        rw [Stmt.contextAfter, undeclaring]
        exact goesOn _ rfl
      simp only [Machine.giveValue, Lox.Machine.giveValue]
      split
      · exact chosen boundThen.1 boundThen.2
      · cases elseBranch with
        | some stmt => exact chosen boundElse.1 boundElse.2
        | none => exact .finish ready trivial (goesOn _ rfl)
  | condition loop =>
      obtain ⟨noneWaits, bound⟩ := admits
      simp only [Machine.giveValue, Lox.Machine.giveValue]
      split
      · refine .execute ready noneWaits bound.2.1.1 ?_
        rw [Stmt.contextAfter, bound.2.1.2]
        exact fits_push ⟨noneWaits, bound⟩ (fun _ leads => leads) (goesOn _ rfl)
      · exact .finish ready trivial (goesOn _ rfl)
  | increment loop => exact mirrors_testLoop ready admits.1 admits.2 (goesOn _ rfl)
  | «return» => exact .finish ready known (goesOn _ rfl)
  | construct object => exact .answer ready admits (goesOn _ rfl)
  | call =>
      have keeps := keeps_callDepth ready (world.callDepth - 1)
      exact .answer keeps.ready (known.mono keeps.grows) (keeps.fits ready (goesOn _ rfl))

/-! ## Frames that await a flow -/

/-- An initializer finds its instance in its activation of `this`. -/
theorem agree_receiver (ready : world.Ready outlet) {function : Function}
    (known : world.KnowsFunction function) (initializer : function.isInitializer = true)
    (span : Span) :
    ∃ value, world.readFrom (world.home function) "this" span = .ok value ∧ world.Knows value ∧
      (function.closure.bind fun ref => world.erase.forest.getAt? ref 0 0) = some value := by
  obtain ⟨ref, outer, home⟩ := known.receiver initializer
  have knownHome := known.home
  rw [home] at knownHome
  obtain ⟨⟨activation, found, _, seen⟩, _⟩ := knownHome
  have numbers : world.Numbers ref "this" 0 :=
    ⟨activation, found, List.prefix_iff_getElem?.mp seen 0 (by simp)⟩
  have cell := cell?_eq_slot? ready.sound numbers
  obtain ⟨value, filled, entry⟩ := cell?_filled ready.sound not_plain_this cell
  refine ⟨value, ?_, entry.value, ?_⟩
  · simp [home, readFrom, seenIn, cell, filled]
  · rw [known.closure, home]
    exact filled

theorem mirrors_endBody {function : Function} {span : Span} {flow : Flow} {stack : Stack .value}
    (ready : world.Ready outlet) (knownFunction : world.KnowsFunction function)
    (known : world.KnowsFlow flow) (fits : world.Fits world.setting stack) :
    Mirrors outlet (Machine.endBody world function span flow stack)
      (Lox.Machine.endBody world.erase function span flow stack) := by
  simp only [Machine.endBody, Lox.Machine.endBody]
  split
  · next initializer =>
      obtain ⟨value, found, knownValue, behind⟩ :=
        agree_receiver ready knownFunction initializer span
      simp only [found, behind]
      exact .answer ready knownValue fits
  · cases flow with
    | «return» value => exact .answer ready known fits
    | _ => exact .answer ready trivial fits

theorem mirrors_giveFlow {flow : Flow} {outcome : Awaited} {frame : Frame .flow outcome}
    {stack : Stack outcome} (ready : world.Ready outlet) (known : world.KnowsFlow flow)
    (fits : world.Fits world.setting (.push frame stack)) :
    Mirrors outlet (Machine.giveFlow world flow frame stack)
      (Lox.Machine.giveFlow world.erase flow frame stack) := by
  obtain ⟨admits, goesOn⟩ := fits
  cases frame with
  | round loop =>
      have again : Mirrors outlet (Machine.giveFlow world .normal (.round loop) stack)
          (Lox.Machine.giveFlow world.erase .normal (.round loop) stack) := by
        have boundIncrement := admits.2.2.2
        simp only [Machine.giveFlow, Lox.Machine.giveFlow]
        cases increments : loop.increment with
        | none => exact mirrors_testLoop ready admits.1 admits.2 (goesOn _ rfl)
        | some increment =>
            rw [increments] at boundIncrement
            exact .evaluate ready boundIncrement
              (fits_push admits (fun _ leads => leads) (goesOn _ rfl))
      cases flow with
      | «break» => exact .finish ready trivial (goesOn _ rfl)
      | «return» value => exact .finish ready known (goesOn _ rfl)
      | normal => exact again
      | «continue» => exact again
  | sequence others =>
      have fitsRest : ∀ context, world.Fits { world.setting with context := context } stack :=
        fun _ => goesOn _ ⟨rfl, rfl⟩
      cases flow with
      | normal => exact mirrors_statements ready admits.1 admits.2 fitsRest
      | «break» => exact .finish ready trivial (fitsRest world.setting.context)
      | «continue» => exact .finish ready trivial (fitsRest world.setting.context)
      | «return» value => exact .finish ready known (fitsRest world.setting.context)
  | leave previous =>
      have inScope : ∀ ref ∈ previous, ref < world.activations.size := by
        intro ref there
        obtain ⟨inner, here, less⟩ := admits ref there
        exact Nat.lt_trans less (ready.inScope inner here)
      have grows : Grows world (world.goTo previous) := .of_same rfl rfl rfl rfl
      have fitsOutside : (world.goTo previous).Fits (world.goTo previous).setting stack :=
        Fits.mono (goesOn _ rfl) grows fun _ _ => rfl
      exact .finish (ready.goTo inScope) (known.mono grows) fitsOutside
  | body function span => exact mirrors_endBody ready admits known (goesOn _ rfl)

/-! ## Steps and runs -/

theorem sound_unwind (sound : world.Sound outlet) {awaited outcome : Awaited}
    (frame : Frame awaited outcome) : (Machine.unwind world frame).Sound outlet := by
  cases frame with
  | leave previous =>
      exact sound.of_grows (.of_same rfl rfl rfl rfl) rfl sound.globals sound.fields rfl
  | call => exact sound.of_grows (.of_same rfl rfl rfl rfl) rfl sound.globals sound.fields rfl
  | _ => exact sound

theorem erase_unwind (world : World) {awaited outcome : Awaited} (frame : Frame awaited outcome) :
    (Machine.unwind world frame).erase = Lox.Machine.unwind world.erase frame := by
  cases frame <;> rfl

/-- Machines that mirror each other do so after one step. -/
theorem Mirrors.next {machine : Machine} {shadow : Lox.Machine}
    (mirrors : Mirrors outlet machine shadow) :
    Mirrors outlet machine.next shadow.next := by
  cases mirrors with
  | evaluate ready bound fits => exact mirrors_beginExpr ready bound fits
  | execute ready noneWaits bound fits => exact mirrors_beginStmt ready noneWaits bound fits
  | @answer world value stack ready known fits =>
      cases stack with
      | empty => exact .answer ready known fits
      | push frame rest => exact mirrors_giveValue ready known fits
  | @finish world flow stack ready known fits =>
      cases stack with
      | empty => exact .finish ready known fits
      | push frame rest => exact mirrors_giveFlow ready known fits
  | @raise world mishap fault _ stack sound shows =>
      cases stack with
      | empty => exact .raise sound shows
      | push frame rest =>
          simp only [Machine.next, Lox.Machine.next, ← erase_unwind]
          exact .raise (sound_unwind sound frame) shows

/-- Machines that mirror each other do so after any number of steps. -/
theorem Mirrors.run {machine : Machine} {shadow : Lox.Machine}
    (mirrors : Mirrors outlet machine shadow) (steps : Nat) : Mirrors outlet (machine.run steps) (shadow.run steps) := by
  induction steps generalizing machine shadow with
  | zero => exact mirrors
  | succ steps inductionHypothesis =>
      simp only [Machine.run, Lox.Machine.run, mirrors.isDone]
      split
      · exact mirrors
      · exact inductionHypothesis mirrors.next

end Lox.Lexical
