import Lox.Proofs.Receiver.Traced
import Lox.Proofs.Running.CallLimit
import Lox.Proofs.Running.Calls

/-!
Contract: callables receive as many arguments as they take.

What is called is compared with the number of its arguments in one place only. A getter
runs without it, and so does the initializer of a class. They fit all the same: a getter
has no parameters, as it was read, and a class takes what the initializer takes that its
call will run.

Main statement: `Session.calls_fit`.

Owns: what a step hands on to be called, what it enters, and that a step enters nothing
else. Does not own: what runs inside a call.
-/

set_option autoImplicit false

namespace Lox

/-- A callable to be started in a world with arguments, whatever their number. -/
structure Invocation where
  world : World
  callable : Callable
  arguments : List Value
  span : Span
  stack : Stack .value

/-- As many arguments as the callable takes. -/
def Invocation.Fits (invocation : Invocation) : Prop :=
  invocation.arguments.length = invocation.callable.arity

/-- The machine that goes on with the invocation, one call deeper if the limit allows. -/
def Invocation.start (invocation : Invocation) : Machine :=
  .invoke invocation.world invocation.callable invocation.arguments invocation.span
    invocation.stack

/-- The initializer that the call of a class runs, bound to the new instance. -/
def World.boundInitializer? (world : World) (origin : Class) : Option Function :=
  origin.initializer?.map fun initializer =>
    ((world.makeInstance origin).2.bindMethod initializer (world.makeInstance origin).1).1

/-- As it was read, a getter has no parameters. -/
theorem Lexical.World.KnowsMethod.parameters {world : Lexical.World} {method : Function}
    (known : world.KnowsMethod method) (getter : method.declaration.isGetter = true) :
    method.declaration.parameters = [] :=
  ((boundFunction_iff _ method.declaration).mp known.bound).2.2.1 getter

namespace Machine

/-- The next step has the invocation to hand on: a callable whose arguments are there, or
a getter. -/
inductive Hands : Machine → Invocation → Prop where
  | call {machine : Machine} {call : Call} {callable : Callable}
      (calls : machine.call? = some call) (callee : call.callee.callable? = some callable) :
      Hands machine ⟨call.world, callable, call.arguments, call.span, call.stack⟩
  | getter {world : World} {object : Instance} {name : Name} {stack : Stack .value}
      {method : Function} (noField : world.field? object name.text = none)
      (found : object.origin.method? name.text = some method)
      (runs : method.declaration.isGetter = true) :
      Hands (.answer world (.instance object) (.push (.property name) stack))
        ⟨(world.bindMethod method object).2, .function (world.bindMethod method object).1, [],
          name.span, stack⟩
  | inheritedGetter {world : World} {depth slot : Nat} {name : Name} {span : Span}
      {stack : Stack .value} {superclass : Class} {receiver : Instance} {method : Function}
      (atSuper : world.readLocal ⟨depth + 1, slot⟩ span = .ok (.class superclass))
      (atThis : world.readLocal ⟨depth, 0⟩ span = .ok (.instance receiver))
      (found : superclass.method? name.text = some method)
      (runs : method.declaration.isGetter = true) :
      Hands (.evaluate world (.super (some ⟨depth + 1, slot⟩) name span) stack)
        ⟨(world.bindMethod method receiver).2, .function (world.bindMethod method receiver).1, [],
          name.span, stack⟩

/-- The next step enters the callable with these arguments: the calls in progress become one
more, or a class that it enters has it as its initializer. -/
inductive Enters (machine : Machine) : Callable → List Value → Prop where
  | handed {invocation : Invocation} (hands : machine.Hands invocation)
      (deeper : machine.world.callDepth < machine.next.world.callDepth) :
      machine.Enters invocation.callable invocation.arguments
  | initializer {origin : Class} {arguments : List Value} {bound : Function}
      (enters : machine.Enters (.class origin) arguments)
      (runs : machine.world.boundInitializer? origin = some bound) :
      machine.Enters (.function bound) arguments

/-- What the next step enters gets what it takes. -/
structure CallsFit (machine : Machine) : Prop where
  /-- As many arguments as the callable takes. -/
  arity : ∀ callable arguments, machine.Enters callable arguments →
    arguments.length = callable.arity
  /-- A function gets a value for each of its parameters, and its environment begins with
  these values and nothing else. -/
  parameters : ∀ function arguments, machine.Enters (.function function) arguments →
    arguments.length = function.declaration.parameters.length ∧
      ∃ ref, machine.next.world.scope = some ref ∧
        machine.next.world.forest.environments[ref]? =
          some ⟨function.closure, arguments.toArray⟩
  /-- No call, body or instance is begun in another way. -/
  calls : machine.world.callDepth < machine.next.world.callDepth →
    ∃ callable arguments, machine.Enters callable arguments
  bodies : machine.bodies < machine.next.bodies →
    ∃ function arguments, machine.Enters (.function function) arguments
  instances : machine.next.world.fields.size ≠ machine.world.fields.size →
    ∃ origin arguments, machine.Enters (.class origin) arguments
  /-- With another number of arguments nothing has happened but the fault. -/
  refused : ∀ invocation, machine.Hands invocation → ¬ invocation.Fits →
    machine.next = .raise machine.world
      (.ofViolation (.argumentCount invocation.callable.arity invocation.arguments.length)
        invocation.span) invocation.stack

/-! ## Steps that enter nothing -/

/-- From the world and these frames nothing is entered on the way to the machine. -/
structure Calm (world : World) (bodies : Nat) (after : Machine) : Prop where
  callDepth : after.world.callDepth ≤ world.callDepth
  bodies : after.bodies ≤ bodies
  instances : after.world.fields.size = world.fields.size

section Calm

-- The equations are derived once here, not in each of the proofs below.
attribute [local simp] Machine.bodies Stack.bodies Frame.bodies Machine.world

variable {world : World} {bodies : Nat}

theorem fields_define (world : World) (name : String) (value : Value) :
    (world.define name value).fields = world.fields := by
  unfold World.define
  split <;> rfl

theorem fields_assign (world : World) (reference : Reference) (value : Value) :
    (world.assign reference value).fields = world.fields := by
  unfold World.assign World.assignLocal
  split
  · split <;> rfl
  · rfl

theorem fields_makeMethods (closure : Option EnvironmentRef) (methods : List FunctionDeclaration)
    (world : World) : (World.makeMethods closure methods world).2.fields = world.fields := by
  induction methods generalizing world with
  | nil => rfl
  | cons declaration rest inductionHypothesis => exact inductionHypothesis _

theorem calm_ofResult (stack : Stack .value) (result : Except Fault Value) :
    Calm world stack.bodies (ofResult world stack result) := by
  cases result <;> exact ⟨Nat.le_refl _, Nat.le_refl _, rfl⟩

theorem calm_ofOperation (span : Span) (stack : Stack .value)
    (result : Except Fault.Violation Value) :
    Calm world stack.bodies (ofOperation world span stack result) := by
  cases result <;> exact ⟨Nat.le_refl _, Nat.le_refl _, rfl⟩

theorem calm_statements (stack : Stack .flow) (body : List Stmt) :
    Calm world stack.bodies (statements world stack body) := by
  cases body with
  | nil => exact ⟨Nat.le_refl _, Nat.le_refl _, rfl⟩
  | cons first others => exact ⟨Nat.le_refl _, by simp [statements], rfl⟩

theorem calm_methodOf {origin : Class} {receiver : Instance} {name : Name}
    {stack : Stack .value} (plain : ∀ method, origin.method? name.text = some method →
      method.declaration.isGetter = false) :
    Calm world stack.bodies (methodOf world origin receiver name stack) := by
  unfold methodOf boundMethod
  split
  · next method found =>
      have sameSort : (world.bindMethod method receiver).1.declaration.isGetter = false :=
        plain method found
      simp only [sameSort, Bool.false_eq_true, ↓reduceIte]
      exact ⟨Nat.le_refl _, Nat.le_refl _, rfl⟩
  · exact ⟨Nat.le_refl _, Nat.le_refl _, rfl⟩

theorem calm_beginExpr {stack : Stack .value} {expr : Expr}
    (free : ∀ invocation, ¬ (Machine.evaluate world expr stack).Hands invocation) :
    Calm world stack.bodies (beginExpr world stack expr) := by
  cases expr with
  | «variable» reference => exact calm_ofResult stack _
  | this address span =>
      cases address with
      | none => exact ⟨Nat.le_refl _, Nat.le_refl _, rfl⟩
      | some address => exact calm_ofResult stack _
  | super address name span =>
      simp only [beginExpr]
      unfold superMethod
      split
      · exact ⟨Nat.le_refl _, Nat.le_refl _, rfl⟩
      · exact ⟨Nat.le_refl _, Nat.le_refl _, rfl⟩
      · split
        · exact ⟨Nat.le_refl _, Nat.le_refl _, rfl⟩
        · next atSuper =>
            split
            · exact ⟨Nat.le_refl _, Nat.le_refl _, rfl⟩
            · next atThis =>
                refine calm_methodOf fun method found => ?_
                exact Bool.eq_false_iff.mpr fun runs =>
                  free _ (.inheritedGetter atSuper atThis found runs)
            · exact ⟨Nat.le_refl _, Nat.le_refl _, rfl⟩
        · exact ⟨Nat.le_refl _, Nat.le_refl _, rfl⟩
  | _ => exact ⟨Nat.le_refl _, by simp [beginExpr], rfl⟩

theorem calm_declareClass {after : World} (same : World.SamePlace world after)
    (fields : after.fields = world.fields) (name : Name) (superclass : Option Class)
    (closure : Option EnvironmentRef) (methods : List FunctionDeclaration) (stack : Stack .flow) :
    Calm world stack.bodies (declareClass after name superclass closure methods stack) := by
  have made := World.samePlace_makeClass after name.text superclass closure methods
  have defined := World.samePlace_define
    (after.makeClass name.text superclass closure methods).2 name.text
    (.class (after.makeClass name.text superclass closure methods).1)
  refine ⟨Nat.le_of_eq (same.trans (made.trans defined)).callDepth, Nat.le_refl _, ?_⟩
  simp only [declareClass, Machine.world, fields_define]
  exact congrArg Array.size ((fields_makeMethods closure methods after).trans fields)

theorem calm_executeClass (name : Name) (superclass : Option Reference)
    (methods : List FunctionDeclaration) (stack : Stack .flow) :
    Calm world stack.bodies (executeClass world name superclass methods stack) := by
  unfold executeClass
  split
  · exact calm_declareClass (.refl world) rfl name none world.scope methods stack
  · split
    · exact ⟨Nat.le_refl _, Nat.le_refl _, rfl⟩
    · next inherited _ =>
        have allocated : World.SamePlace world
            (world.allocate world.scope #[.class inherited]).2 := ⟨rfl, rfl, rfl⟩
        exact calm_declareClass allocated rfl name _ _ methods stack
    · exact ⟨Nat.le_refl _, Nat.le_refl _, rfl⟩

theorem calm_define {after : World} (same : World.SamePlace world after)
    (fields : after.fields = world.fields) (name : String) (value : Value) (flow : Flow)
    (stack : Stack .flow) :
    Calm world stack.bodies (.finish (after.define name value) flow stack) :=
  ⟨Nat.le_of_eq (same.trans (World.samePlace_define after name value)).callDepth, Nat.le_refl _,
    congrArg Array.size ((fields_define after name value).trans fields)⟩

theorem calm_beginStmt (stack : Stack .flow) (stmt : Stmt) :
    Calm world stack.bodies (beginStmt world stack stmt) := by
  cases stmt with
  | var name initializer span =>
      cases initializer with
      | none => exact calm_define (.refl world) rfl name.text .nil .normal stack
      | some value => exact ⟨Nat.le_refl _, by simp [beginStmt], rfl⟩
  | block body span =>
      obtain ⟨callDepth, bodies, instances⟩ : Calm (world.enter world.scope #[]) _ _ :=
        calm_statements (.push (.leave world.scope) stack) body
      exact ⟨callDepth, by simpa [beginStmt, inEnvironment] using bodies, instances⟩
  | function declaration span =>
      have made : World.SamePlace world (world.makeFunction declaration world.scope false).2 :=
        ⟨rfl, rfl, rfl⟩
      exact calm_define made rfl declaration.name.text _ .normal stack
  | «return» value span =>
      cases value with
      | none => exact ⟨Nat.le_refl _, Nat.le_refl _, rfl⟩
      | some value => exact ⟨Nat.le_refl _, by simp [beginStmt], rfl⟩
  | «class» name superclass methods span => exact calm_executeClass name superclass methods stack
  | _ => exact ⟨Nat.le_refl _, by simp [beginStmt], rfl⟩

/-- What is called with another number of arguments than it takes, or cannot be called. -/
theorem calm_callValue {callee : Value} (notCallable : callee.callable? = none)
    (arguments : List Value) (span : Span) (stack : Stack .value) :
    Calm world stack.bodies (callValue world callee arguments span stack) := by
  simp only [callValue, notCallable]
  exact ⟨Nat.le_refl _, Nat.le_refl _, rfl⟩

theorem calm_property {object : Instance} {name : Name} {stack : Stack .value}
    (plain : world.field? object name.text = none →
      ∀ method, object.origin.method? name.text = some method →
        method.declaration.isGetter = false) :
    Calm world stack.bodies (property world object name stack) := by
  unfold property
  split
  · exact ⟨Nat.le_refl _, Nat.le_refl _, rfl⟩
  · next noField => exact calm_methodOf (plain noField)

theorem calm_giveValue {found : Value} {outcome : Awaited} {frame : Frame .value outcome}
    {stack : Stack outcome}
    (free : ∀ invocation, ¬ (Machine.answer world found (.push frame stack)).Hands invocation) :
    Calm world (Stack.push frame stack).bodies (giveValue world found frame stack) := by
  cases frame with
  | assign target =>
      simp only [giveValue]
      split
      · exact ⟨Nat.le_refl _, by simp, rfl⟩
      · exact ⟨Nat.le_of_eq (World.samePlace_assign world target found).callDepth, by simp,
          congrArg Array.size (fields_assign world target found)⟩
  | unary operator span => simpa [giveValue] using calm_ofOperation span stack (operator.apply found)
  | rightOperand operator left span =>
      simpa [giveValue] using calm_ofOperation span stack (operator.apply left found)
  | logical operator right =>
      simp only [giveValue]
      split <;> exact ⟨Nat.le_refl _, by simp, rfl⟩
  | callee arguments span =>
      cases arguments with
      | nil =>
          have notCallable : found.callable? = none :=
            Option.eq_none_iff_forall_ne_some.mpr fun callable called =>
              free _ (.call rfl called)
          simpa [giveValue, nextArgument] using calm_callValue notCallable [] span stack
      | cons first rest => exact ⟨Nat.le_refl _, by simp [giveValue, nextArgument], rfl⟩
  | argument callee before others span =>
      cases others with
      | nil =>
          have notCallable : callee.callable? = none :=
            Option.eq_none_iff_forall_ne_some.mpr fun callable called =>
              free _ (.call rfl called)
          simpa [giveValue, nextArgument] using
            calm_callValue notCallable (found :: before).reverse span stack
      | cons first rest => exact ⟨Nat.le_refl _, by simp [giveValue, nextArgument], rfl⟩
  | property name =>
      cases found with
      | «instance» object =>
          have plain : world.field? object name.text = none →
              ∀ method, object.origin.method? name.text = some method →
                method.declaration.isGetter = false :=
            fun noField method found => Bool.eq_false_iff.mpr fun runs =>
              free _ (.getter noField found runs)
          simpa [giveValue] using calm_property plain
      | _ => exact ⟨Nat.le_refl _, by simp [giveValue], rfl⟩
  | fieldObject name value =>
      cases found <;> exact ⟨Nat.le_refl _, by simp [giveValue], rfl⟩
  | fieldValue object name => exact ⟨Nat.le_refl _, by simp [giveValue], by simp [giveValue, World.setField]⟩
  | print span =>
      simp only [giveValue]
      split <;> exact ⟨Nat.le_refl _, by simp, rfl⟩
  | declare name => simpa [giveValue] using calm_define (.refl world) rfl name.text found .normal stack
  | branch thenBranch elseBranch =>
      simp only [giveValue]
      split
      · exact ⟨Nat.le_refl _, by simp, rfl⟩
      · cases elseBranch <;> exact ⟨Nat.le_refl _, by simp, rfl⟩
  | condition loop =>
      simp only [giveValue]
      split <;> exact ⟨Nat.le_refl _, by simp, rfl⟩
  | increment loop => exact ⟨Nat.le_refl _, by simp [giveValue, testLoop], rfl⟩
  | call => exact ⟨Nat.sub_le _ _, by simp [giveValue], rfl⟩
  | _ => exact ⟨Nat.le_refl _, by simp [giveValue], rfl⟩

theorem calm_giveFlow (flow : Flow) {outcome : Awaited} (frame : Frame .flow outcome)
    (stack : Stack outcome) :
    Calm world (Stack.push frame stack).bodies (giveFlow world flow frame stack) := by
  cases frame with
  | round loop =>
      simp only [giveFlow]
      split
      · exact ⟨Nat.le_refl _, by simp, rfl⟩
      · exact ⟨Nat.le_refl _, by simp, rfl⟩
      · split <;> exact ⟨Nat.le_refl _, by simp [testLoop], rfl⟩
  | sequence others =>
      simp only [giveFlow]
      split
      · simpa using calm_statements stack others
      · exact ⟨Nat.le_refl _, by simp, rfl⟩
  | leave previous => exact ⟨Nat.le_refl _, by simp [giveFlow], rfl⟩
  | body function span =>
      simp only [giveFlow, endBody]
      split
      · split <;> exact ⟨Nat.le_refl _, by simp, rfl⟩
      · split <;> exact ⟨Nat.le_refl _, by simp, rfl⟩

/-- A step that has nothing to hand on enters nothing. -/
theorem next_calm {machine : Machine} (free : ∀ invocation, ¬ machine.Hands invocation) :
    Calm machine.world machine.bodies machine.next := by
  cases machine with
  | evaluate world expr stack => exact calm_beginExpr free
  | execute world stmt stack => exact calm_beginStmt stack stmt
  | answer world found stack =>
      cases stack with
      | empty => exact ⟨Nat.le_refl _, Nat.le_refl _, rfl⟩
      | push frame rest => exact calm_giveValue free
  | finish world flow stack =>
      cases stack with
      | empty => exact ⟨Nat.le_refl _, Nat.le_refl _, rfl⟩
      | push frame rest => exact calm_giveFlow flow frame rest
  | raise world fault stack =>
      cases stack with
      | empty => exact ⟨Nat.le_refl _, Nat.le_refl _, rfl⟩
      | push frame rest =>
          cases frame with
          | call => exact ⟨Nat.sub_le _ _, by simp [next], rfl⟩
          | _ => exact ⟨Nat.le_refl _, by simp [next], rfl⟩

end Calm

/-! ## Steps that hand something on -/

section Hands

variable {machine : Machine} {invocation : Invocation} {outlet : Outlet} {ledger : Ledger}

theorem world_of_call? {call : Call} (calls : machine.call? = some call) :
    machine.world = call.world := by
  unfold call? at calls
  split at calls <;> cases calls <;> rfl

theorem bodies_of_call? {call : Call} (calls : machine.call? = some call) :
    machine.bodies = call.stack.bodies := by
  unfold call? at calls
  split at calls <;> cases calls <;> exact Nat.zero_add _

/-- What is handed on is to run at the present depth, on the present frames. -/
theorem Hands.place (hands : machine.Hands invocation) :
    invocation.world.callDepth = machine.world.callDepth ∧
      invocation.world.fields = machine.world.fields ∧
      invocation.stack.bodies = machine.bodies := by
  cases hands with
  | call calls callee => simp [world_of_call? calls, bodies_of_call? calls]
  | getter => exact ⟨rfl, rfl, (Nat.zero_add _).symm⟩
  | inheritedGetter => exact ⟨rfl, rfl, rfl⟩

/-- A getter of a known class runs with what it takes. -/
theorem next_of_getter {world : World} {origin : Class} {named : Lexical.World}
    (known : named.KnowsClass origin) {name : Name} {method : Function}
    (found : origin.method? name.text = some method)
    (getter : method.declaration.isGetter = true) (receiver : Instance) (stack : Stack .value) :
    (0 = (world.bindMethod method receiver).1.arity) ∧
      methodOf world origin receiver name stack =
        invoke (world.bindMethod method receiver).2
          (.function (world.bindMethod method receiver).1) [] name.span stack := by
  have parameters := (known.method? found).parameters getter
  have runs : (world.bindMethod method receiver).1.declaration.isGetter = true := getter
  refine ⟨?_, by simp only [methodOf, found, boundMethod, runs, ↓reduceIte]⟩
  exact (congrArg List.length parameters).symm

/-- What is handed on goes on if it has as many arguments as it takes; otherwise there is a
fault, and the world is as it was. -/
theorem Traced.next_of_hands (traced : machine.Traced outlet ledger)
    (hands : machine.Hands invocation) :
    (invocation.Fits ∧ machine.next = invocation.start) ∨
      (¬ invocation.Fits ∧ machine.next = .raise machine.world
        (.ofViolation (.argumentCount invocation.callable.arity invocation.arguments.length)
          invocation.span) invocation.stack) := by
  cases hands with
  | @call _ call callable calls callee =>
      rw [(next_of_call? calls).2, world_of_call? calls]
      simp only [callValue, callee]
      split
      · next fits => exact .inl ⟨fits, rfl⟩
      · next differ => exact .inr ⟨differ, rfl⟩
  | @getter world object name stack method noField found runs =>
      obtain ⟨named, mirrors, _⟩ := traced
      cases mirrors with
      | answer ready known _ =>
          obtain ⟨fits, goesOn⟩ := next_of_getter known found runs object stack
          refine .inl ⟨fits, ?_⟩
          simp only [Machine.next, giveValue, property, noField]
          exact goesOn
  | @inheritedGetter world depth slot name span stack superclass receiver method atSuper atThis found runs =>
      obtain ⟨named, mirrors, _⟩ := traced
      cases mirrors with
      | @evaluate named _ _ ready bound _ =>
          have known : named.KnowsClass superclass := by
            obtain ⟨actual, _, known, atAddress⟩ := Lexical.World.read_super ready bound.2.symm span
            rw [atAddress] at atSuper
            obtain rfl : actual = superclass := by simpa using atSuper
            exact known
          obtain ⟨fits, goesOn⟩ := next_of_getter known found runs receiver stack
          refine .inl ⟨fits, ?_⟩
          simp only [Machine.next, beginExpr, superMethod, atSuper, atThis]
          exact goesOn

/-- An invocation that comes to be one call deeper is started there. -/
theorem start_of_deeper
    (deeper : invocation.world.callDepth < invocation.start.world.callDepth) :
    invocation.start =
      Machine.start { invocation.world with callDepth := invocation.world.callDepth + 1 }
        invocation.callable invocation.arguments invocation.span (.push .call invocation.stack) := by
  unfold Invocation.start invoke at deeper ⊢
  split
  · next full => simp [full, Machine.world] at deeper
  · rfl

/-- What comes to be one call deeper has as many arguments as it takes, and is started. -/
theorem Traced.start_of_hands (traced : machine.Traced outlet ledger)
    (hands : machine.Hands invocation)
    (deeper : machine.world.callDepth < machine.next.world.callDepth) :
    invocation.Fits ∧ machine.next =
      Machine.start { invocation.world with callDepth := invocation.world.callDepth + 1 }
        invocation.callable invocation.arguments invocation.span (.push .call invocation.stack) := by
  obtain ⟨fits, goesOn⟩ | ⟨_, fails⟩ := traced.next_of_hands hands
  · rw [goesOn, ← hands.place.1] at deeper
    exact ⟨fits, goesOn.trans (start_of_deeper deeper)⟩
  · rw [fails] at deeper
    exact absurd deeper (Nat.lt_irrefl _)

/-- Only a class that is called has an initializer to run. -/
theorem Enters.class_handed {origin : Class} {arguments : List Value}
    (enters : machine.Enters (.class origin) arguments) :
    ∃ call, machine.call? = some call ∧ call.callee.callable? = some (.class origin) ∧
      call.arguments = arguments ∧
      machine.Hands ⟨call.world, .class origin, call.arguments, call.span, call.stack⟩ ∧
      machine.world.callDepth < machine.next.world.callDepth := by
  generalize entered : Callable.class origin = callable at enters
  cases enters with
  | @handed invocation hands deeper =>
      cases hands with
      | @call _ call callable calls callee =>
          obtain rfl : Callable.class origin = callable := entered
          exact ⟨call, calls, callee, rfl, .call calls callee, deeper⟩
      | getter => cases entered
      | inheritedGetter => cases entered
  | initializer => cases entered

/-! ## What starts -/

theorem world_statements (world : World) (stack : Stack .flow) (body : List Stmt) :
    (statements world stack body).world = world := by
  cases body <;> rfl

/-- The body of a function begins in an environment of its own, which holds the arguments. -/
theorem environment_of_enterFunction (world : World) (function : Function)
    (arguments : List Value) (span : Span) (stack : Stack .value) :
    ∃ ref, (enterFunction world function arguments span stack).world.scope = some ref ∧
      (enterFunction world function arguments span stack).world.forest.environments[ref]? =
        some ⟨function.closure, arguments.toArray⟩ := by
  refine ⟨world.forest.next, ?_, ?_⟩
  · rw [enterFunction, inEnvironment, world_statements]
    rfl
  · rw [enterFunction, inEnvironment, world_statements]
    exact Array.getElem?_push_size

theorem callDepth_enterFunction (world : World) (function : Function) (arguments : List Value)
    (span : Span) (stack : Stack .value) :
    (enterFunction world function arguments span stack).world.callDepth = world.callDepth := by
  rw [enterFunction, inEnvironment, world_statements]
  rfl

/-- A native has no body, and makes no instance. -/
theorem calm_callNative (world : World) (native : Native) (arguments : List Value) (span : Span)
    (stack : Stack .value) :
    Calm world stack.bodies (callNative world native arguments span stack) := by
  unfold callNative
  split
  · exact ⟨Nat.le_refl _, Nat.le_refl _, rfl⟩
  · split <;> exact ⟨Nat.le_refl _, Nat.le_refl _, rfl⟩

theorem callDepth_start (world : World) (callable : Callable) (arguments : List Value)
    (span : Span) (stack : Stack .value) :
    (Machine.start world callable arguments span stack).world.callDepth = world.callDepth := by
  cases callable with
  | function function => exact callDepth_enterFunction world function arguments span stack
  | native native =>
      simp only [Machine.start, callNative]
      split
      · rfl
      · split <;> rfl
  | «class» origin =>
      simp only [Machine.start, construct]
      split
      · rfl
      · exact callDepth_enterFunction _ _ arguments span _

/-- The step either enters what was handed on, or nothing. -/
theorem Traced.enters_or_calm (traced : machine.Traced outlet ledger)
    (hands : machine.Hands invocation) :
    (machine.Enters invocation.callable invocation.arguments ∧ machine.next =
      Machine.start { invocation.world with callDepth := invocation.world.callDepth + 1 }
        invocation.callable invocation.arguments invocation.span
        (.push .call invocation.stack)) ∨
      Calm machine.world machine.bodies machine.next := by
  obtain ⟨callDepth, fields, bodies⟩ := hands.place
  obtain ⟨_, goesOn⟩ | ⟨_, fails⟩ := traced.next_of_hands hands
  · by_cases full : invocation.world.callLimit ≤ invocation.world.callDepth
    · have overflows : invocation.start =
          .raise invocation.world ⟨.stackOverflow, invocation.span⟩ invocation.stack :=
        if_pos full
      rw [goesOn, overflows]
      exact .inr ⟨Nat.le_of_eq callDepth, Nat.le_of_eq bodies, congrArg Array.size fields⟩
    · have starts : invocation.start = Machine.start
          { invocation.world with callDepth := invocation.world.callDepth + 1 }
          invocation.callable invocation.arguments invocation.span
          (.push .call invocation.stack) :=
        if_neg full
      have deeper : machine.world.callDepth < machine.next.world.callDepth := by
        rw [goesOn, starts, callDepth_start, ← callDepth]
        exact Nat.lt_succ_self _
      exact .inl ⟨.handed hands deeper, goesOn.trans starts⟩
  · rw [fails]
    exact .inr ⟨Nat.le_refl _, Nat.le_of_eq bodies, rfl⟩

/-- What is entered has as many arguments as it takes. -/
theorem Traced.arity_of_enters (traced : machine.Traced outlet ledger) {callable : Callable}
    {arguments : List Value} (enters : machine.Enters callable arguments) :
    arguments.length = callable.arity := by
  induction enters with
  | handed hands deeper => exact (traced.start_of_hands hands deeper).1
  | @initializer origin arguments bound _ runs inductionHypothesis =>
      obtain ⟨initializer, found, rfl⟩ := Option.map_eq_some_iff.mp runs
      simp only [Callable.arity, found] at inductionHypothesis
      exact inductionHypothesis

/-- The environment of a function that is entered begins with the arguments. -/
theorem Traced.environment_of_enters (traced : machine.Traced outlet ledger) {function : Function}
    {arguments : List Value} (enters : machine.Enters (.function function) arguments) :
    ∃ ref, machine.next.world.scope = some ref ∧
      machine.next.world.forest.environments[ref]? =
        some ⟨function.closure, arguments.toArray⟩ := by
  generalize entered : Callable.function function = callable at enters
  cases enters with
  | @handed invocation hands deeper =>
      rw [(traced.start_of_hands hands deeper).2, ← entered]
      exact environment_of_enterFunction _ function _ _ _
  | @initializer origin arguments bound enters runs =>
      obtain rfl := Callable.function.inj entered
      obtain ⟨initializer, found, rfl⟩ := Option.map_eq_some_iff.mp runs
      obtain ⟨call, calls, _, rfl, hands, deeper⟩ := enters.class_handed
      rw [(traced.start_of_hands hands deeper).2, world_of_call? calls]
      simp only [Machine.start, construct, found]
      exact environment_of_enterFunction _ _ _ _ _

theorem Traced.callsFit (traced : machine.Traced outlet ledger) : machine.CallsFit where
  arity callable arguments enters := traced.arity_of_enters enters
  parameters function arguments enters :=
    ⟨traced.arity_of_enters enters, traced.environment_of_enters enters⟩
  calls deeper := by
    by_cases free : ∀ invocation, ¬ machine.Hands invocation
    · exact absurd deeper (Nat.not_lt_of_le (next_calm free).callDepth)
    · obtain ⟨invocation, hands⟩ := not_forall_not.mp free
      exact ⟨_, _, .handed hands deeper⟩
  bodies more := by
    have busy : ¬ Calm machine.world machine.bodies machine.next :=
      fun calm => absurd more (Nat.not_lt_of_le calm.bodies)
    obtain ⟨invocation, hands⟩ := not_forall_not.mp fun free => busy (next_calm free)
    obtain ⟨_, _, place⟩ := hands.place
    obtain ⟨enters, starts⟩ := (traced.enters_or_calm hands).resolve_right busy
    obtain ⟨world, callable, arguments, span, stack⟩ := invocation
    cases callable with
    | function function => exact ⟨function, arguments, enters⟩
    | native native =>
        have calm := calm_callNative { world with callDepth := world.callDepth + 1 } native
          arguments span (.push .call stack)
        rw [starts, ← place] at more
        exact absurd more (Nat.not_lt_of_le (calm.bodies.trans (Nat.le_of_eq (Nat.zero_add _))))
    | «class» origin =>
        cases found : origin.initializer? with
        | none =>
            have same : machine.next.bodies = stack.bodies := by
              simp only [starts, Machine.start, construct, found]
              exact Nat.zero_add _
            rw [same, place] at more
            exact absurd more (Nat.lt_irrefl _)
        | some initializer =>
            exact ⟨_, arguments, .initializer enters (congrArg _ found)⟩
  instances more := by
    have busy : ¬ Calm machine.world machine.bodies machine.next :=
      fun calm => more calm.instances
    obtain ⟨invocation, hands⟩ := not_forall_not.mp fun free => busy (next_calm free)
    obtain ⟨_, place, _⟩ := hands.place
    obtain ⟨enters, starts⟩ := (traced.enters_or_calm hands).resolve_right busy
    obtain ⟨world, callable, arguments, span, stack⟩ := invocation
    rw [starts, ← place] at more
    cases callable with
    | function function =>
        refine absurd ?_ more
        simp only [Machine.start, enterFunction, inEnvironment, world_statements]
        rfl
    | native native =>
        exact absurd (calm_callNative { world with callDepth := world.callDepth + 1 } native
          arguments span (.push .call stack)).instances more
    | «class» origin => exact ⟨origin, arguments, enters⟩
  refused invocation hands differ := by
    obtain ⟨fits, _⟩ | ⟨_, fails⟩ := traced.next_of_hands hands
    · exact absurd fits differ
    · exact fails

end Hands

end Machine

/-! ## Sessions -/

/-- Every statement that was begun stands along the ledger. -/
theorem Ledger.exists_mem_along (budget : Nat) (ledger : Ledger) {entries : List (World × Stmt)}
    {entry : World × Stmt} (member : entry ∈ entries) :
    ∃ reached : Ledger, (reached, entry) ∈ along budget ledger entries := by
  induction entries generalizing ledger with
  | nil => cases member
  | cons first rest inductionHypothesis =>
      obtain rfl | later := List.mem_cons.mp member
      · exact ⟨ledger, List.mem_cons_self⟩
      · obtain ⟨reached, there⟩ := inductionHypothesis _ later
        exact ⟨reached, List.mem_cons_of_mem _ there⟩

namespace Session

/-- In every statement that a session begins, each step enters a callable with as many
arguments as it takes, or none: a call with another number has no effect but the fault. -/
theorem calls_fit (callLimit : Nat) (outlet : Outlet) (clock : Clock) (budget : Nat)
    {requests : List Request}
    (honest : ServedHonestly budget requests (new callLimit outlet clock)) :
    ∀ entry ∈ begun budget requests (new callLimit outlet clock), ∀ steps : Nat,
      ((Machine.execute entry.1 entry.2 .empty).run steps).CallsFit := by
  intro entry member steps
  obtain ⟨ledger, along⟩ := Ledger.exists_mem_along budget [] member
  have traced := (traced_new callLimit outlet clock).begun honest (ledger, entry) along
  exact (traced.run steps).callsFit

/-- A class that inherits its initializer. -/
def inheritedInitializer : String :=
  "class A \x7b init(n) \x7b this.n = n; \x7d \x7d class B < A \x7b \x7d B(1).n;"

/-- The call of a class that the next step enters, with its initializer and the arguments. -/
def constructing? (machine : Machine) : Option (Function × List Value) :=
  match machine.call? with
  | some ⟨_, .class origin, arguments, _, _⟩ =>
      if machine.world.callDepth < machine.next.world.callDepth then
        (machine.world.boundInitializer? origin).map fun initializer => (initializer, arguments)
      else none
  | _ => none

theorem enters_of_constructing? {machine : Machine} {initializer : Function}
    {arguments : List Value} (found : constructing? machine = some (initializer, arguments)) :
    machine.Enters (.function initializer) arguments := by
  unfold constructing? at found
  split at found
  · next calls =>
      split at found
      · next deeper =>
          obtain ⟨bound, runs, same⟩ := Option.map_eq_some_iff.mp found
          obtain ⟨rfl, rfl⟩ := Prod.mk.inj same
          exact .initializer (.handed (.call calls rfl) deeper) runs
      · cases found
  · cases found

theorem calls_fit_inheritedInitializer :
    ServedHonestly 200 [.run inheritedInitializer] (new 2048 .working (.still 0)) ∧
      ∃ entry ∈ begun 200 [.run inheritedInitializer] (new 2048 .working (.still 0)),
        ∃ initializer arguments,
          ((Machine.execute entry.1 entry.2 .empty).run 6).Enters (.function initializer)
              arguments ∧
            arguments.length = initializer.declaration.parameters.length := by
  have honest : ServedHonestly 200 [.run inheritedInitializer] (new 2048 .working (.still 0)) :=
    ⟨trivial, trivial⟩
  have reaches : (begun 200 [.run inheritedInitializer] (new 2048 .working (.still 0))).any
      (fun entry => (constructing? ((Machine.execute entry.1 entry.2 .empty).run 6)).isSome) =
        true := by
    decide +kernel
  obtain ⟨entry, member, found⟩ := List.any_eq_true.mp reaches
  obtain ⟨⟨initializer, arguments⟩, constructs⟩ := Option.isSome_iff_exists.mp found
  have enters := enters_of_constructing? constructs
  have fits := calls_fit 2048 .working (.still 0) 200 honest entry member 6
  exact ⟨honest, entry, member, initializer, arguments, enters,
    (fits.parameters initializer arguments enters).1⟩

end Session

end Lox
