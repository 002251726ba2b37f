import Lox.Proofs.Receiver.Standing
import Lox.Proofs.Running.Balance

/-!
Contract: a run by name agrees with its ledger.

The ledger of a world is what the ledger of the run says, and wherever a construct is in
progress, the place at which it goes on has the standing that the ledger gives to the
innermost body in progress. One step of the run carries both on.

Main statement: `Recorded.next`.

Owns: `Recorded`, and its step lemma. Does not own: runs with slots, which it is about
through the refinement.
-/

set_option autoImplicit false

namespace Lox

/-- What is made later does not change the standing of a function. -/
theorem Ledger.standingOf_append (ledger more : Ledger) {function : Function}
    (made : function.identity < ledger.length) :
    (ledger ++ more).standingOf function = ledger.standingOf function := by
  unfold Ledger.standingOf
  rw [List.getElem?_append_left made]

end Lox

namespace Lox.Lexical

open Binding

namespace World

/-- The world has made what the ledger says. -/
structure Records (world : World) (ledger : Ledger) : Prop where
  homes : world.KnowsHomes
  ledger : world.ledger = ledger

/-- In the activation runs what stands above these frames. -/
structure Here (world : World) (ledger : Ledger) (scope : Option EnvironmentRef)
    {awaited : Awaited} (stack : Stack awaited) : Prop where
  present : ∀ ref ∈ scope, ref < world.activations.size
  origin : world.origin (world.placeAt scope) = ⟨ledger.standing stack, none⟩

/-- Every frame but that of a body goes on at a place of the right standing. When a body
ends, nothing more is done at its place. -/
def Stands (world : World) (ledger : Ledger) : {awaited : Awaited} → Option EnvironmentRef →
    Stack awaited → Prop
  | _, _, .empty => True
  | _, scope, .push (.body function _) rest =>
      function.identity < ledger.length ∧ world.Stands ledger scope rest
  | _, scope, .push frame rest =>
      world.Here ledger scope rest ∧ world.Stands ledger (frame.scopeBehind scope) rest

variable {world before after : World} {ledger : Ledger} {outlet : Outlet}

theorem Stands.made {awaited : Awaited} {stack : Stack awaited} {scope : Option EnvironmentRef}
    (stands : world.Stands ledger scope stack) {function : Function}
    (innermost : stack.function? = some function) : function.identity < ledger.length := by
  induction stack generalizing scope with
  | empty => cases innermost
  | push frame rest inductionHypothesis =>
      cases frame with
      | body found span =>
          obtain rfl := Option.some.inj innermost
          exact stands.1
      | _ => exact inductionHypothesis stands.2 innermost

theorem Stands.standing_append {awaited : Awaited} {stack : Stack awaited}
    {scope : Option EnvironmentRef} (stands : world.Stands ledger scope stack) (more : Ledger) :
    (ledger ++ more).standing stack = ledger.standing stack := by
  unfold Ledger.standing
  cases innermost : stack.function? with
  | none => rfl
  | some function =>
      simp only [Option.map_some, Option.getD_some]
      exact Ledger.standingOf_append ledger more (stands.made innermost)

/-- A world that a step leads to: no `this` or `super` has changed. -/
structure Leaves (before after : World) : Prop where
  grows : Grows before after
  upholds : Upholds before after

theorem Leaves.of_same (grows : Grows before after)
    (activations : after.activations = before.activations) : Leaves before after :=
  ⟨grows, .of_same activations⟩

theorem Leaves.trans {first second third : World} (one : Leaves first second)
    (two : Leaves second third) : Leaves first third :=
  ⟨one.grows.trans two.grows, one.upholds.trans two.upholds⟩

theorem Records.leaves (records : before.Records ledger) (leaves : Leaves before after)
    (homes : after.homes = before.homes) : after.Records ledger where
  homes := records.homes.mono leaves.grows homes
  ledger := (leaves.upholds.ledger records.homes homes).trans records.ledger

theorem Here.leaves {awaited : Awaited} {stack : Stack awaited}
    {scope behind : Option EnvironmentRef} (here : before.Here ledger scope stack)
    (sound : before.Sound outlet) (leaves : Leaves before after)
    (stands : before.Stands ledger behind stack) (more : Ledger) :
    after.Here (ledger ++ more) scope stack where
  present ref inside := leaves.grows.lt_size (here.present ref inside)
  origin := by
    rw [leaves.upholds.origin_placeAt sound here.present, here.origin,
      stands.standing_append more]

theorem Stands.leaves {awaited : Awaited} {stack : Stack awaited} {scope : Option EnvironmentRef}
    (stands : before.Stands ledger scope stack) (sound : before.Sound outlet)
    (leaves : Leaves before after) (more : Ledger) :
    after.Stands (ledger ++ more) scope stack := by
  induction stack generalizing scope with
  | empty => trivial
  | push frame rest inductionHypothesis =>
      cases frame with
      | body function span =>
          refine ⟨?_, inductionHypothesis stands.2⟩
          rw [List.length_append]
          exact Nat.lt_of_lt_of_le stands.1 (Nat.le_add_right _ _)
      | _ => exact ⟨stands.1.leaves sound leaves stands.2 more, inductionHypothesis stands.2⟩

/-- What a step that makes nothing leaves standing. -/
theorem Stands.kept {awaited : Awaited} {stack : Stack awaited} {scope : Option EnvironmentRef}
    (stands : before.Stands ledger scope stack) (sound : before.Sound outlet)
    (leaves : Leaves before after) : after.Stands ledger scope stack := by
  simpa using stands.leaves sound leaves []

theorem Here.kept {awaited : Awaited} {stack : Stack awaited}
    {scope behind : Option EnvironmentRef} (here : before.Here ledger scope stack)
    (sound : before.Sound outlet) (leaves : Leaves before after)
    (stands : before.Stands ledger behind stack) : after.Here ledger scope stack := by
  simpa using here.leaves sound leaves stands []

/-- A world that a step leads to, which has made nothing and runs at the same place. -/
structure Stays (before after : World) : Prop where
  leaves : Leaves before after
  homes : after.homes = before.homes
  scope : after.scope = before.scope

theorem Stays.records (stays : Stays before after) (records : before.Records ledger) :
    after.Records ledger :=
  records.leaves stays.leaves stays.homes

theorem Stays.stands {awaited : Awaited} {stack : Stack awaited} (stays : Stays before after)
    (sound : before.Sound outlet) (stands : before.Stands ledger before.scope stack) :
    after.Stands ledger after.scope stack := by
  rw [stays.scope]
  exact stands.kept sound stays.leaves

theorem Stays.here {awaited : Awaited} {stack : Stack awaited} (stays : Stays before after)
    (sound : before.Sound outlet) (here : before.Here ledger before.scope stack)
    (stands : before.Stands ledger before.scope stack) : after.Here ledger after.scope stack := by
  rw [stays.scope]
  exact here.kept sound stays.leaves stands

theorem stays_setCell (world : World) (ref : EnvironmentRef) {name : String} (plain : Plain name)
    (content : Option Value) : Stays world (world.setCell ref name content) where
  leaves := ⟨grows_setCell world ref name content, upholds_setCell world ref plain content⟩
  homes := rfl
  scope := rfl

/-- Nothing but globals, fields, depth or output has changed. -/
theorem Stays.of_same (homes : after.homes = before.homes)
    (activations : after.activations = before.activations)
    (natives : after.natives = before.natives) (sinks : after.outlet = before.outlet)
    (scope : after.scope = before.scope) : Stays before after where
  leaves := .of_same (.of_same homes activations natives sinks) activations
  homes := homes
  scope := scope

theorem stays_announce (world : World) {name : String} (plain : Plain name) :
    Stays world (world.announce name) := by
  unfold announce
  split
  · exact .of_same rfl rfl rfl rfl rfl
  · next ref _ => exact stays_setCell world ref plain none

theorem stays_define (world : World) {name : String} (plain : Plain name) (value : Value) :
    Stays world (world.define name value) := by
  unfold define
  split
  · exact .of_same rfl rfl rfl rfl rfl
  · next ref _ => exact stays_setCell world ref plain (some value)

theorem stays_assign (world : World) {name : String} (plain : Plain name) (value : Value) :
    Stays world (world.assign name value) := by
  unfold assign
  split
  · next ref _ => exact stays_setCell world ref plain (some value)
  · exact .of_same rfl rfl rfl rfl rfl

end World

/-! ## Machines -/

/-- The machine agrees with the ledger. -/
inductive Recorded (ledger : Ledger) : Machine → Prop
  | evaluate {world : World} {expr : Expr} {stack : Stack .value}
      (records : world.Records ledger) (here : world.Here ledger world.scope stack)
      (stands : world.Stands ledger world.scope stack) :
      Recorded ledger (.evaluate world expr stack)
  | execute {world : World} {stmt : Stmt} {stack : Stack .flow}
      (records : world.Records ledger) (here : world.Here ledger world.scope stack)
      (stands : world.Stands ledger world.scope stack) :
      Recorded ledger (.execute world stmt stack)
  | answer {world : World} {value : Value} {stack : Stack .value}
      (records : world.Records ledger) (stands : world.Stands ledger world.scope stack) :
      Recorded ledger (.answer world value stack)
  | finish {world : World} {flow : Flow} {stack : Stack .flow}
      (records : world.Records ledger) (stands : world.Stands ledger world.scope stack) :
      Recorded ledger (.finish world flow stack)
  | raise {world : World} {mishap : Mishap} {awaited : Awaited} {stack : Stack awaited}
      (records : world.Records ledger) : Recorded ledger (.raise world mishap stack)

section Steps

variable {world : World} {ledger : Ledger} {outlet : Outlet} {span : Span}

theorem recorded_ofResult {stack : Stack .value} (records : world.Records ledger)
    (stands : world.Stands ledger world.scope stack) (result : Except Mishap Value) :
    Recorded ledger (Machine.ofResult world stack result) := by
  cases result with
  | ok value => exact .answer records stands
  | error mishap => exact .raise records

theorem recorded_ofOperation {stack : Stack .value} (records : world.Records ledger)
    (stands : world.Stands ledger world.scope stack) (result : Except Fault.Violation Value) :
    Recorded ledger (Machine.ofOperation world span stack result) := by
  cases result with
  | ok value => exact .answer records stands
  | error violation => exact .raise records

theorem recorded_statements {stack : Stack .flow} (records : world.Records ledger)
    (here : world.Here ledger world.scope stack) (stands : world.Stands ledger world.scope stack)
    (body : List Stmt) : Recorded ledger (Machine.statements world stack body) := by
  cases body with
  | nil => exact .finish records stands
  | cons first others => exact .execute records ⟨here.present, here.origin⟩ ⟨here, stands⟩

/-- A new activation stands at its outer place. -/
theorem recorded_inActivation {outer : Place} {names : List String} {values : List Value}
    {stack : Stack .flow} (ready : world.Ready outlet) (knownOuter : world.KnowsPlace outer)
    (lengths : names.length = values.length) (plain : ∀ name ∈ names, Plain name)
    (records : world.Records ledger) (outside : world.standing outer = ledger.standing stack)
    (stands : world.Stands ledger world.scope stack) (body : List Stmt) :
    Recorded ledger (Machine.inActivation world outer names values body stack) := by
  have leaves : World.Leaves world (world.activate outer names values).2 :=
    ⟨World.grows_activate world outer names values,
      World.upholds_activate world outer names values⟩
  have entered : World.Leaves world ((world.activate outer names values).2.goTo
      (some (world.activate outer names values).1)) :=
    leaves.trans (.of_same (.of_same rfl rfl rfl rfl) rfl)
  have present := (Array.getElem?_eq_some_iff.mp
    (World.getElem?_activate world outer names values)).1
  have here : World.Here ((world.activate outer names values).2.goTo
      (some (world.activate outer names values).1)) ledger
      (some (world.activate outer names values).1) stack := by
    refine ⟨?_, ?_⟩
    · intro ref inside
      obtain rfl := Option.some.inj inside
      exact present
    · have made := World.origin_activate world knownOuter plain lengths
      have same : ((world.activate outer names values).2.goTo
          (some (world.activate outer names values).1)).origin =
            (world.activate outer names values).2.origin := World.origin_of_activations rfl
      rw [same, ← outside]
      exact made
  have hereInside : World.Here ((world.activate outer names values).2.goTo
      (some (world.activate outer names values).1)) ledger
      (some (world.activate outer names values).1) (.push (.leave world.scope) stack) :=
    ⟨here.present, here.origin⟩
  exact recorded_statements (records.leaves entered rfl) hereInside
    ⟨here, stands.kept ready.sound entered⟩ body

/-! ## Calls -/

theorem recorded_enterFunction {function : Function} {arguments : List Value}
    {stack : Stack .value} (ready : world.Ready outlet) (known : world.KnowsFunction function)
    (arity : arguments.length = function.arity) (records : world.Records ledger)
    (stands : world.Stands ledger world.scope stack) :
    Recorded ledger (Machine.enterFunction world function arguments span stack) := by
  obtain ⟨_, plain, _, _⟩ := (boundFunction_iff _ _).mp known.bound
  have lengths : (function.declaration.parameters.map Name.text).length = arguments.length := by
    rw [List.length_map]
    exact arity.symm
  have plainNames : ∀ name ∈ function.declaration.parameters.map Name.text, Plain name := by
    intro name member
    obtain ⟨parameter, among, rfl⟩ := List.mem_map.mp member
    exact plain parameter among
  have made : function.identity < ledger.length := by
    rw [← records.ledger, World.length_ledger]
    exact known.made
  have outside : world.standing (world.home function) =
      ledger.standing (.push (.body function span) stack) := by
    rw [← World.standingOf_ledger, records.ledger]
    rfl
  exact recorded_inActivation ready known.home lengths plainNames records outside ⟨made, stands⟩ _

/-- To bind a method leaves everything standing, and makes one function. -/
theorem records_bindMethod {stack : Stack .value} {method : Function}
    (ready : world.Ready outlet) (known : world.KnowsMethod method) (receiver : Instance)
    (records : world.Records ledger) (here : world.Here ledger world.scope stack)
    (stands : world.Stands ledger world.scope stack)
    {scope : Option EnvironmentRef} (sameScope : scope = world.scope) :
    (world.bindMethod method receiver).2.Records (ledger.bind method receiver) ∧
      (world.bindMethod method receiver).2.Here (ledger.bind method receiver) scope stack ∧
      (world.bindMethod method receiver).2.Stands (ledger.bind method receiver) scope stack := by
  subst sameScope
  have activates := World.grows_activate world (world.home method) ["this"] [.instance receiver]
  have leaves : World.Leaves world (world.bindMethod method receiver).2 :=
    ⟨activates.trans (World.grows_pushHome _ _), World.upholds_bindMethod world method receiver⟩
  have bound := World.ledger_bindMethod records.homes known.home receiver
  rw [records.ledger] at bound
  exact ⟨⟨records.homes.bindMethod known.home receiver, bound⟩,
    here.leaves ready.sound leaves stands _, stands.leaves ready.sound leaves _⟩

theorem recorded_construct {origin : Class} {arguments : List Value} {stack : Stack .value}
    (ready : world.Ready outlet) (known : world.KnowsClass origin)
    (arity : arguments.length = (Callable.class origin).arity) (records : world.Records ledger)
    (here : world.Here ledger world.scope stack) (stands : world.Stands ledger world.scope stack) :
    Recorded
      (match origin.initializer? with
        | some initializer => ledger.bind initializer (world.makeInstance origin).1
        | none => ledger)
      (Machine.construct world origin arguments span stack) := by
  have keeps := World.keeps_makeInstance ready origin
  have leaves : World.Leaves world (world.makeInstance origin).2 := .of_same keeps.grows rfl
  have recordsMade := records.leaves leaves rfl
  have hereMade := here.kept ready.sound leaves stands
  have standsMade := stands.kept ready.sound leaves
  simp only [Machine.construct]
  cases initializes : origin.initializer? with
  | none => exact .answer recordsMade standsMade
  | some initializer =>
      have knownMethod := (known.initializer? initializes).mono keeps.grows
      have knownObject : (world.makeInstance origin).2.KnowsClass
          (world.makeInstance origin).1.origin := known.mono keeps.grows
      obtain ⟨keepsBound, knownBound⟩ := World.bindMethod_spec keeps.ready knownMethod knownObject
      obtain ⟨recordsBound, hereBound, standsBound⟩ := records_bindMethod keeps.ready knownMethod
        (world.makeInstance origin).1 recordsMade hereMade standsMade rfl
      have arityBound : arguments.length =
          ((world.makeInstance origin).2.bindMethod initializer
            (world.makeInstance origin).1).1.arity := by
        rw [arity]
        simp only [Callable.arity, initializes]
        rfl
      exact recorded_enterFunction keepsBound.ready knownBound arityBound recordsBound
        ⟨hereBound, standsBound⟩

theorem recorded_callNative {native : Native} {arguments : List Value} {stack : Stack .value}
    (ready : world.Ready outlet) (records : world.Records ledger)
    (stands : world.Stands ledger world.scope stack) :
    Recorded ledger (Machine.callNative world native arguments span stack) := by
  simp only [Machine.callNative]
  have leaves : World.Leaves world world.tick := .of_same (.of_same rfl rfl rfl rfl) rfl
  split
  · exact .raise records
  · split
    · exact .answer (records.leaves leaves rfl) (stands.kept ready.sound leaves)
    · exact .raise (records.leaves leaves rfl)

/-- A deeper call changes nothing of the place. -/
theorem leaves_callDepth (world : World) (depth : Nat) :
    World.Leaves world { world with callDepth := depth } :=
  .of_same (.of_same rfl rfl rfl rfl) rfl

theorem recorded_invokeFunction {function : Function} {arguments : List Value}
    {stack : Stack .value} (ready : world.Ready outlet) (known : world.KnowsFunction function)
    (arity : arguments.length = function.arity) (records : world.Records ledger)
    (here : world.Here ledger world.scope stack) (stands : world.Stands ledger world.scope stack) :
    Recorded ledger (Machine.invoke world (.function function) arguments span stack) := by
  simp only [Machine.invoke]
  split
  · exact .raise records
  · have keeps := World.keeps_callDepth ready (world.callDepth + 1)
    have leaves := leaves_callDepth world (world.callDepth + 1)
    exact recorded_enterFunction keeps.ready (known.mono keeps.grows) arity
      (records.leaves leaves rfl)
      ⟨here.kept ready.sound leaves stands, stands.kept ready.sound leaves⟩

theorem recorded_callClass {origin : Class} {arguments : List Value} {stack : Stack .value}
    (ready : world.Ready outlet) (known : world.KnowsClass origin) (records : world.Records ledger)
    (here : world.Here ledger world.scope stack) (stands : world.Stands ledger world.scope stack) :
    Recorded (ledger.call world.erase arguments.length (.class origin))
      (Machine.callValue world (.class origin) arguments span stack) := by
  have starts : arguments.length = (Callable.class origin).arity → Recorded
      (match origin.initializer? with
        | some initializer => ledger.bind initializer (world.makeInstance origin).1
        | none => ledger)
      (Machine.construct { world with callDepth := world.callDepth + 1 } origin arguments span
        (.push .call stack)) := by
    intro arity
    have keeps := World.keeps_callDepth ready (world.callDepth + 1)
    have leaves := leaves_callDepth world (world.callDepth + 1)
    have hereDeeper := here.kept ready.sound leaves stands
    have standsDeeper : World.Stands { world with callDepth := world.callDepth + 1 } ledger
        world.scope (.push .call stack) := ⟨hereDeeper, stands.kept ready.sound leaves⟩
    exact recorded_construct keeps.ready (known.mono keeps.grows) arity
      (records.leaves leaves rfl) ⟨hereDeeper.present, hereDeeper.origin⟩ standsDeeper
  have sameLimit : world.erase.callLimit = world.callLimit := rfl
  have sameDepth : world.erase.callDepth = world.callDepth := rfl
  simp only [Machine.callValue, Value.callable?, Ledger.call, Machine.invoke, sameLimit, sameDepth]
  cases initializes : origin.initializer? with
  | none =>
      simp only [initializes] at starts ⊢
      split
      · next arity =>
          split
          · exact .raise records
          · exact starts arity
      · exact .raise records
  | some initializer =>
      have sameArity : (Callable.class origin).arity = initializer.arity := by
        simp [Callable.arity, initializes]
      simp only [initializes, sameArity] at starts ⊢
      by_cases arity : arguments.length = initializer.arity
      · by_cases room : world.callDepth < world.callLimit
        · simp only [arity, room, Nat.not_le_of_lt room, and_self, if_true, if_false]
          exact starts arity
        · simp only [arity, room, Nat.le_of_not_lt room, and_false, if_true, if_false]
          exact .raise records
      · simp only [arity, false_and, if_false]
        exact .raise records

theorem recorded_callValue {callee : Value} {arguments : List Value} {stack : Stack .value}
    (ready : world.Ready outlet) (known : world.Knows callee) (records : world.Records ledger)
    (here : world.Here ledger world.scope stack) (stands : world.Stands ledger world.scope stack) :
    Recorded (ledger.call world.erase arguments.length callee)
      (Machine.callValue world callee arguments span stack) := by
  cases callee with
  | function function =>
      simp only [Machine.callValue, Value.callable?, Ledger.call]
      split
      · next arity => exact recorded_invokeFunction ready known arity records here stands
      · exact .raise records
  | native native =>
      simp only [Machine.callValue, Value.callable?, Ledger.call]
      split
      · have leaves := leaves_callDepth world (world.callDepth + 1)
        simp only [Machine.invoke]
        split
        · exact .raise records
        · exact recorded_callNative (World.keeps_callDepth ready (world.callDepth + 1)).ready
            (records.leaves leaves rfl)
            ⟨here.kept ready.sound leaves stands, stands.kept ready.sound leaves⟩
      · exact .raise records
  | «class» origin =>
      exact recorded_callClass ready known records here stands
  | _ =>
      simp only [Machine.callValue, Value.callable?, Ledger.call]
      exact .raise records

/-! ## Properties -/

theorem recorded_boundMethod {method : Function} {receiver : Instance} {stack : Stack .value}
    (ready : world.Ready outlet) (known : world.KnowsMethod method)
    (knownReceiver : world.KnowsClass receiver.origin) (records : world.Records ledger)
    (here : world.Here ledger world.scope stack) (stands : world.Stands ledger world.scope stack) :
    Recorded (ledger.bind method receiver)
      (Machine.boundMethod world method receiver span stack) := by
  obtain ⟨keeps, knownBound⟩ := World.bindMethod_spec ready known knownReceiver
  obtain ⟨recordsBound, hereBound, standsBound⟩ :=
    records_bindMethod ready known receiver records here stands rfl
  simp only [Machine.boundMethod]
  split
  · next getter =>
      -- A getter has no parameters.
      have noParameters := ((boundFunction_iff _ _).mp knownBound.bound).2.2.1 getter
      have arity : ([] : List Value).length = (world.bindMethod method receiver).1.arity := by
        simp only [Function.arity]
        rw [noParameters]
        rfl
      exact recorded_invokeFunction keeps.ready knownBound arity recordsBound hereBound standsBound
  · exact .answer recordsBound standsBound

theorem recorded_methodOf {origin : Class} {receiver : Instance} {stack : Stack .value}
    (ready : world.Ready outlet) (known : world.KnowsClass origin)
    (knownReceiver : world.KnowsClass receiver.origin) (records : world.Records ledger)
    (here : world.Here ledger world.scope stack) (stands : world.Stands ledger world.scope stack)
    (name : Name) :
    Recorded (ledger.lookUp origin receiver name.text)
      (Machine.methodOf world origin receiver name stack) := by
  simp only [Machine.methodOf, Ledger.lookUp]
  cases found : origin.method? name.text with
  | none => exact .raise records
  | some method =>
      exact recorded_boundMethod ready (known.method? found) knownReceiver records here stands

theorem recorded_property {object : Instance} {stack : Stack .value} (ready : world.Ready outlet)
    (known : world.KnowsClass object.origin) (records : world.Records ledger)
    (here : world.Here ledger world.scope stack) (stands : world.Stands ledger world.scope stack)
    (name : Name) :
    Recorded
      (match world.erase.field? object name.text with
        | some _ => ledger
        | none => ledger.lookUp object.origin object name.text)
      (Machine.property world object name stack) := by
  have sameField : world.erase.field? object name.text = world.field? object name.text := rfl
  simp only [Machine.property, sameField]
  cases found : world.field? object name.text with
  | none => exact recorded_methodOf ready known known records here stands name
  | some value => exact .answer records stands

/-- What `super` and `this` read is what the ledger says. -/
theorem standing_of_inherits {stack : Stack .value} (ready : world.Ready outlet)
    (inherits : Inherits world.setting.context) (here : world.Here ledger world.scope stack)
    (span : Span) :
    ∃ receiver superclass, ledger.standing stack = ⟨some receiver, some superclass⟩ ∧
      world.KnowsClass receiver.origin ∧ world.KnowsClass superclass ∧
      world.read "this" span = .ok (.instance receiver) ∧
      world.read "super" span = .ok (.class superclass) := by
  obtain ⟨depth, superAddress, thisAddress⟩ := inherits.addresses
  obtain ⟨superclass, superFound, knownSuper, _⟩ := World.read_super ready superAddress span
  obtain ⟨receiver, thisFound, knownReceiver, _⟩ := World.read_this ready thisAddress span
  have sameReceiver : (world.standing world.place).receiver = some receiver :=
    World.receiver_of_read thisAddress thisFound
  have sameSuperclass : (world.standing world.place).superclass = some superclass :=
    World.superclass_of_read inherits superFound
  have standing : world.standing world.place = ledger.standing stack :=
    congrArg Origin.standing here.origin
  refine ⟨receiver, superclass, ?_, knownReceiver, knownSuper, thisFound, superFound⟩
  rw [← standing, ← sameReceiver, ← sameSuperclass]

theorem recorded_superMethod {stack : Stack .value} (ready : world.Ready outlet)
    (inherits : Inherits world.setting.context) (records : world.Records ledger)
    (here : world.Here ledger world.scope stack) (stands : world.Stands ledger world.scope stack)
    (name : Name) :
    Recorded
      (match ledger.standing stack with
        | ⟨some receiver, some superclass⟩ => ledger.lookUp superclass receiver name.text
        | _ => ledger)
      (Machine.superMethod world name span stack) := by
  obtain ⟨receiver, superclass, standing, knownReceiver, knownSuper, thisFound, superFound⟩ :=
    standing_of_inherits ready inherits here span
  simp only [standing, Machine.superMethod, superFound, thisFound]
  exact recorded_methodOf ready knownSuper knownReceiver records here stands name

/-! ## Expressions -/

theorem recorded_beginExpr {expr : Expr} {stack : Stack .value} (ready : world.Ready outlet)
    (bound : expr.Bound world.setting.context) (records : world.Records ledger)
    (here : world.Here ledger world.scope stack) (stands : world.Stands ledger world.scope stack) :
    Recorded (ledger.after (.evaluate world.erase expr stack))
      (Machine.beginExpr world stack expr) := by
  have pushed {frame : Frame .value .value}
      (stays : (Stack.push frame stack).function? = stack.function?) :
      world.Here ledger world.scope (.push frame stack) :=
    ⟨here.present, by rw [Ledger.standing, stays]; exact here.origin⟩
  cases expr with
  | literal value span => exact .answer records stands
  | grouping inner span => exact .evaluate records here stands
  | «variable» reference => exact recorded_ofResult records stands _
  | assign target value span => exact .evaluate records (pushed rfl) ⟨here, stands⟩
  | unary operator operand span => exact .evaluate records (pushed rfl) ⟨here, stands⟩
  | binary operator left right span => exact .evaluate records (pushed rfl) ⟨here, stands⟩
  | logical operator left right span => exact .evaluate records (pushed rfl) ⟨here, stands⟩
  | call callee arguments span => exact .evaluate records (pushed rfl) ⟨here, stands⟩
  | get object name => exact .evaluate records (pushed rfl) ⟨here, stands⟩
  | set object name value span => exact .evaluate records (pushed rfl) ⟨here, stands⟩
  | this address span => exact recorded_ofResult records stands _
  | super address name span => exact recorded_superMethod ready bound.1 records here stands name
  | lambda function =>
      have leaves : World.Leaves world
          (world.makeFunction function world.place false).2 :=
        .of_same (World.grows_pushHome world world.place) rfl
      have made := World.ledger_makeFunction world function world.place false
      have origin : world.origin world.place = ⟨ledger.standing stack, none⟩ := here.origin
      rw [records.ledger, origin] at made
      exact .answer ⟨records.homes.pushHome ready.knowsPlace, made⟩
        (stands.leaves ready.sound leaves _)

/-! ## Statements -/

theorem recorded_define {name : String} {stack : Stack .flow} (ready : world.Ready outlet)
    (plain : Plain name) (records : world.Records ledger)
    (stands : world.Stands ledger world.scope stack) (value : Value) :
    Recorded ledger (.finish (world.define name value) .normal stack) := by
  have stays := World.stays_define world plain value
  exact .finish (stays.records records) (stays.stands ready.sound stands)

theorem recorded_declareClass {name : Name} {superclass : Option Class} {home : Place}
    {methods : List FunctionDeclaration} {stack : Stack .flow} (ready : world.Ready outlet)
    (plain : Plain name.text) (knownHome : world.KnowsPlace home)
    (bound : boundFunctions (["this"] :: viewFrom home) methods)
    (inherited : ∀ cls ∈ superclass, world.KnowsClass cls)
    (origin : world.origin home = ⟨ledger.standing stack, superclass⟩)
    (records : world.Records ledger) (stands : world.Stands ledger world.scope stack) :
    Recorded (ledger.declareClass superclass methods stack)
      (Machine.declareClass world name superclass home methods stack) := by
  obtain ⟨keeps, _⟩ := World.makeClass_spec ready knownHome bound name.text inherited
  have sameScope : (world.makeClass name.text superclass home methods).2.scope = world.scope :=
    keeps.scope
  have leaves : World.Leaves world (world.makeClass name.text superclass home methods).2 :=
    .of_same keeps.grows (World.activations_makeMethods world home methods)
  have made := World.ledger_makeClass world name.text superclass home methods
  rw [records.ledger, origin] at made
  have standsMade := stands.leaves ready.sound leaves
    ((methods.map fun _ => ⟨ledger.standing stack, superclass⟩) ++ [⟨.outside, none⟩])
  rw [← sameScope] at standsMade
  exact recorded_define keeps.ready plain
    ⟨records.homes.makeClass knownHome name.text superclass methods, made⟩ standsMade _

theorem recorded_executeClass {name : Name} {superclass : Option Reference}
    {methods : List FunctionDeclaration} {stack : Stack .flow} (ready : world.Ready outlet)
    (plain : Plain name.text)
    (boundSuperclass : ∀ reference ∈ superclass, reference.Bound world.setting.context)
    (bound : boundFunctions (methodContext world.setting.context superclass) methods)
    (records : world.Records ledger) (here : world.Here ledger world.scope stack)
    (stands : world.Stands ledger world.scope stack) :
    Recorded
      (match world.erase.inherited? superclass with
        | some inherited => ledger.declareClass inherited methods stack
        | none => ledger)
      (Machine.executeClass world name superclass methods stack) := by
  cases superclass with
  | none =>
      exact recorded_declareClass ready plain ready.knowsPlace bound (by simp) here.origin records
        stands
  | some reference =>
      have agree := World.agree_readVariable ready (boundSuperclass reference rfl)
      simp only [Machine.executeClass, Lox.World.inherited?]
      cases expected : world.read reference.name.text reference.name.span with
      | error mishap =>
          cases found : world.erase.readVariable reference with
          | ok other => simp [Agree, expected, found] at agree
          | error fault => exact .raise records
      | ok value =>
          have known := World.knows_of_read ready.sound expected
          have found : world.erase.readVariable reference = .ok value := by
            cases found : world.erase.readVariable reference with
            | ok other =>
                rw [expected, found] at agree
                exact congrArg Except.ok (Eq.symm agree)
            | error fault => simp [Agree, expected, found] at agree
          rw [found]
          cases value with
          | «class» inherited =>
              obtain ⟨keeps, place, _⟩ := activate_super_spec ready known rfl
              have leaves : World.Leaves world
                  (world.activate world.place ["super"] [.class inherited]).2 :=
                ⟨keeps.grows, World.upholds_activate world world.place ["super"] [.class inherited]⟩
              have origin := World.origin_super world ready.knowsPlace inherited
              have standing : world.standing world.place = ledger.standing stack :=
                congrArg Origin.standing here.origin
              rw [standing] at origin
              have inheritedKnown : ∀ cls ∈ some inherited,
                  (world.activate world.place ["super"] [.class inherited]).2.KnowsClass cls := by
                intro cls same
                obtain rfl := Option.some.inj same
                exact World.KnowsClass.mono known keeps.grows
              exact recorded_declareClass keeps.ready plain place bound inheritedKnown origin
                (records.leaves leaves rfl) (stands.kept ready.sound leaves)
          | _ => exact .raise records

theorem recorded_beginStmt {stmt : Stmt} {stack : Stack .flow} (ready : world.Ready outlet)
    (noneWaits : world.setting.pending = none) (bound : stmt.Bound world.setting.context)
    (records : world.Records ledger) (here : world.Here ledger world.scope stack)
    (stands : world.Stands ledger world.scope stack) :
    Recorded (ledger.after (.execute world.erase stmt stack))
      (Machine.beginStmt world stack stmt) := by
  have pushed {frame : Frame .value .flow}
      (stays : (Stack.push frame stack).function? = stack.function?) :
      world.Here ledger world.scope (.push frame stack) :=
    ⟨here.present, by rw [Ledger.standing, stays]; exact here.origin⟩
  cases stmt with
  | expression value span => exact .evaluate records (pushed rfl) ⟨here, stands⟩
  | print value span => exact .evaluate records (pushed rfl) ⟨here, stands⟩
  | var name initializer span =>
      cases initializer with
      | none => exact recorded_define ready bound.1.1 records stands .nil
      | some value =>
          have stays := World.stays_announce world bound.1.1
          have hereAfter := stays.here ready.sound here stands
          exact .evaluate (stays.records records) ⟨hereAfter.present, hereAfter.origin⟩
            ⟨hereAfter, stays.stands ready.sound stands⟩
  | block statements span =>
      have outside : world.standing world.place = ledger.standing stack :=
        congrArg Origin.standing here.origin
      exact recorded_inActivation ready ready.knowsPlace rfl (by simp) records outside stands
        statements
  | conditional condition thenBranch elseBranch span =>
      exact .evaluate records (pushed rfl) ⟨here, stands⟩
  | loop condition body increment span => exact .evaluate records (pushed rfl) ⟨here, stands⟩
  | function declaration span =>
      have stays := World.stays_announce world bound.1.1
      have becomes := World.becomes_announce ready bound.1.1 noneWaits bound.1.2
      have keeps := World.keeps_pushHome becomes.ready (world.announce declaration.name.text).place
      have hereAfter := stays.here ready.sound here stands
      have leaves : World.Leaves (world.announce declaration.name.text)
          ((world.announce declaration.name.text).makeFunction declaration
            (world.announce declaration.name.text).place false).2 :=
        .of_same (World.grows_pushHome _ _) rfl
      have made := World.ledger_makeFunction (world.announce declaration.name.text) declaration
        (world.announce declaration.name.text).place false
      have origin : (world.announce declaration.name.text).origin
          (world.announce declaration.name.text).place = ⟨ledger.standing stack, none⟩ :=
        hereAfter.origin
      have recordsAfter := stays.records records
      rw [recordsAfter.ledger, origin] at made
      exact recorded_define keeps.ready bound.1.1
        ⟨recordsAfter.homes.pushHome becomes.ready.knowsPlace, made⟩
        ((stays.stands ready.sound stands).leaves becomes.ready.sound leaves _) _
  | «return» value span =>
      cases value with
      | none => exact .finish records stands
      | some value => exact .evaluate records (pushed rfl) ⟨here, stands⟩
  | «class» name superclass methods span =>
      obtain ⟨announced, announces⟩ : ∃ announced, world.announce name.text = announced :=
        ⟨_, rfl⟩
      have stays := World.stays_announce world bound.1.1
      have becomes := World.becomes_announce ready bound.1.1 noneWaits bound.1.2
      have erased := World.erase_announce ready noneWaits bound.1.2
      rw [announces] at stays becomes erased
      have context : announced.setting.context = declareIn name.text world.setting.context :=
        congrArg Setting.context becomes.setting
      have boundSuperclass : ∀ reference ∈ superclass,
          reference.Bound announced.setting.context := by
        rw [context]
        exact bound.2.1
      have boundMethods :
          boundFunctions (methodContext announced.setting.context superclass) methods := by
        rw [context]
        exact bound.2.2
      have declared := recorded_executeClass becomes.ready bound.1.1 boundSuperclass boundMethods
        (stays.records records) (stays.here ready.sound here stands)
        (stays.stands ready.sound stands)
      rw [erased] at declared
      simp only [Machine.beginStmt, announces]
      exact declared
  | «break» span => exact .finish records stands
  | «continue» span => exact .finish records stands

/-! ## Frames -/

theorem recorded_testLoop {loop : Loop} {stack : Stack .flow} (records : world.Records ledger)
    (here : world.Here ledger world.scope stack) (stands : world.Stands ledger world.scope stack) :
    Recorded ledger (Machine.testLoop world loop stack) :=
  .evaluate records ⟨here.present, here.origin⟩ ⟨here, stands⟩

theorem recorded_giveValue {value : Value} {outcome : Awaited} {frame : Frame .value outcome}
    {stack : Stack outcome} (ready : world.Ready outlet) (known : world.Knows value)
    (fits : world.Fits world.setting (.push frame stack)) (records : world.Records ledger)
    (awaits : world.Stands ledger world.scope (.push frame stack)) :
    Recorded (ledger.after (.answer world.erase value (.push frame stack)))
      (Machine.giveValue world value frame stack) := by
  obtain ⟨admits, _⟩ := fits
  cases frame with
  | assign target =>
      obtain ⟨here, stands⟩ := awaits
      simp only [Machine.giveValue]
      split
      · exact .raise records
      · have stays := World.stays_assign world admits.2 value
        exact .answer (stays.records records) (stays.stands ready.sound stands)
  | unary operator span => exact recorded_ofOperation records awaits.2 _
  | leftOperand operator right span =>
      obtain ⟨here, stands⟩ := awaits
      exact .evaluate records ⟨here.present, here.origin⟩ ⟨here, stands⟩
  | rightOperand operator left span => exact recorded_ofOperation records awaits.2 _
  | logical operator right =>
      obtain ⟨here, stands⟩ := awaits
      simp only [Machine.giveValue]
      split
      · exact .answer records stands
      · exact .evaluate records here stands
  | callee arguments span =>
      obtain ⟨here, stands⟩ := awaits
      cases arguments with
      | nil =>
          have called : Recorded (ledger.call world.erase ([] : List Value).length value)
              (Machine.callValue world value [] span stack) :=
            recorded_callValue ready known records here stands
          exact called
      | cons first rest => exact .evaluate records ⟨here.present, here.origin⟩ ⟨here, stands⟩
  | argument callee before others span =>
      obtain ⟨here, stands⟩ := awaits
      cases others with
      | nil =>
          have called : Recorded (ledger.call world.erase (value :: before).reverse.length callee)
              (Machine.callValue world callee (value :: before).reverse span stack) :=
            recorded_callValue ready admits.1 records here stands
          rw [List.length_reverse] at called
          exact called
      | cons first rest => exact .evaluate records ⟨here.present, here.origin⟩ ⟨here, stands⟩
  | property name =>
      obtain ⟨here, stands⟩ := awaits
      cases value with
      | «instance» object => exact recorded_property ready known records here stands name
      | _ => exact .raise records
  | fieldObject name right =>
      obtain ⟨here, stands⟩ := awaits
      cases value with
      | «instance» object =>
          exact .evaluate records ⟨here.present, here.origin⟩ ⟨here, stands⟩
      | _ => exact .raise records
  | fieldValue object name =>
      have stays : World.Stays world (world.setField object name.text value) :=
        .of_same rfl rfl rfl rfl rfl
      exact .answer (stays.records records) (stays.stands ready.sound awaits.2)
  | discard => exact .finish records awaits.2
  | print span =>
      simp only [Machine.giveValue]
      split
      · exact .raise records
      · have stays : World.Stays world (world.print value.display) := .of_same rfl rfl rfl rfl rfl
        exact .finish (stays.records records) (stays.stands ready.sound awaits.2)
  | declare name => exact recorded_define ready admits.1 records awaits.2 value
  | branch thenBranch elseBranch =>
      obtain ⟨here, stands⟩ := awaits
      simp only [Machine.giveValue]
      split
      · exact .execute records here stands
      · split
        · exact .execute records here stands
        · exact .finish records stands
  | condition loop =>
      obtain ⟨here, stands⟩ := awaits
      simp only [Machine.giveValue]
      split
      · exact .execute records ⟨here.present, here.origin⟩ ⟨here, stands⟩
      · exact .finish records stands
  | increment loop => exact recorded_testLoop records awaits.1 awaits.2
  | «return» => exact .finish records awaits.2
  | construct object => exact .answer records awaits.2
  | call =>
      have stays : World.Stays world { world with callDepth := world.callDepth - 1 } :=
        .of_same rfl rfl rfl rfl rfl
      exact .answer (stays.records records) (stays.stands ready.sound awaits.2)

theorem recorded_giveFlow {flow : Flow} {outcome : Awaited} {frame : Frame .flow outcome}
    {stack : Stack outcome} (ready : world.Ready outlet) (records : world.Records ledger)
    (awaits : world.Stands ledger world.scope (.push frame stack)) :
    Recorded ledger (Machine.giveFlow world flow frame stack) := by
  cases frame with
  | round loop =>
      obtain ⟨here, stands⟩ := awaits
      simp only [Machine.giveFlow]
      split
      · exact .finish records stands
      · exact .finish records stands
      · split
        · exact .evaluate records ⟨here.present, here.origin⟩ ⟨here, stands⟩
        · exact recorded_testLoop records here stands
  | sequence others =>
      obtain ⟨here, stands⟩ := awaits
      simp only [Machine.giveFlow]
      split
      · exact recorded_statements records here stands others
      · exact .finish records stands
  | leave previous =>
      have leaves : World.Leaves world (world.goTo previous) :=
        .of_same (.of_same rfl rfl rfl rfl) rfl
      exact .finish (records.leaves leaves rfl) (awaits.2.kept ready.sound leaves)
  | body function span =>
      simp only [Machine.giveFlow, Machine.endBody]
      split
      · exact recorded_ofResult records awaits.2 _
      · split
        · exact .answer records awaits.2
        · exact .answer records awaits.2

/-! ## Runs -/

/-- A run by name agrees with the ledger that the run by slot has kept. -/
theorem Recorded.next {machine : Machine} {shadow : Lox.Machine}
    (recorded : Recorded ledger machine) (mirrors : Mirrors outlet machine shadow) :
    Recorded (ledger.after shadow) machine.next := by
  cases mirrors with
  | evaluate ready bound _ =>
      cases recorded with
      | evaluate records here stands => exact recorded_beginExpr ready bound records here stands
  | execute ready noneWaits bound _ =>
      cases recorded with
      | execute records here stands =>
          exact recorded_beginStmt ready noneWaits bound records here stands
  | @answer _ value stack ready known fits =>
      cases recorded with
      | answer records stands =>
          cases stack with
          | empty => exact .answer records stands
          | push frame rest => exact recorded_giveValue ready known fits records stands
  | @finish _ _ stack ready _ _ =>
      cases recorded with
      | finish records stands =>
          cases stack with
          | empty => exact .finish records stands
          | push frame rest => exact recorded_giveFlow ready records stands
  | @raise world mishap _ _ stack _ _ =>
      cases recorded with
      | raise records =>
          cases stack with
          | empty => exact .raise records
          | push frame rest =>
              cases frame with
              | leave previous =>
                  exact .raise (records.leaves (.of_same (.of_same rfl rfl rfl rfl) rfl) rfl)
              | call => exact .raise (records.leaves (leaves_callDepth world _) rfl)
              | _ => exact .raise records

end Steps

end Lox.Lexical
