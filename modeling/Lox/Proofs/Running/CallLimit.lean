import Lox.Proofs.Running.Balance

/-!
Contract: the limit on the depth of calls, and what is restored at the end of a run.

A machine is about to start a call if the last argument of a call has arrived at what can
be called with so many, or if the property that it reads is a getter. Such a step, and no
other, makes a stack overflow, and does so exactly if as many calls as the limit allows
are already in progress.

Main statement: `World.restores_and_limits`.

Owns: which steps overflow; the guarantees of a run from any world. Does not own: what
runs inside a call.
-/

set_option autoImplicit false

namespace Lox

/-- The value can be called with so many arguments. -/
def Value.Takes (count : Nat) (callee : Value) : Prop :=
  ∃ callable, callee.callable? = some callable ∧ count = callable.arity

namespace Machine

/-- The fault that is on its way out. -/
def fault? : Machine → Option Fault
  | .raise _ fault _ => some fault
  | _ => none

/-- The next step finds that a call at this span is one too many. -/
def Overflows (machine : Machine) (span : Span) : Prop :=
  machine.fault? = none ∧ machine.next.fault? = some ⟨.stackOverflow, span⟩

/-- The next step is to start a call at this span. -/
inductive Calls : Machine → Span → Prop where
  | withoutArguments {world : World} {callee : Value} {span : Span} {stack : Stack .value}
      (takes : callee.Takes 0) : Calls (.answer world callee (.push (.callee [] span) stack)) span
  | lastArgument {world : World} {callee last : Value} {before : List Value} {span : Span}
      {stack : Stack .value} (takes : callee.Takes (before.length + 1)) :
      Calls (.answer world last (.push (.argument callee before [] span) stack)) span
  | getter {world : World} {object : Instance} {name : Name} {stack : Stack .value}
      {method : Function} (noField : world.field? object name.text = none)
      (found : object.origin.method? name.text = some method)
      (runs : method.declaration.isGetter = true) :
      Calls (.answer world (.instance object) (.push (.property name) stack)) name.span
  | inheritedGetter {world : World} {depth slot : Nat} {name : Name} {span : Span}
      {stack : Stack .value} {superclass : Class} {receiver : Instance} {method : Function}
      (atSuper : world.readLocal ⟨depth + 1, slot⟩ span = .ok (.class superclass))
      (atThis : world.readLocal ⟨depth, 0⟩ span = .ok (.instance receiver))
      (found : superclass.method? name.text = some method)
      (runs : method.declaration.isGetter = true) :
      Calls (.evaluate world (.super (some ⟨depth + 1, slot⟩) name span) stack) name.span

/-! ## Which steps overflow -/

variable {world : World} {span place : Span}

theorem fault?_statements (world : World) (stack : Stack .flow) (body : List Stmt) :
    (statements world stack body).fault? = none := by
  cases body <;> rfl

theorem readLocal_ne_overflow (address : Address) {fault : Fault}
    (fails : world.readLocal address span = .error fault) : fault ≠ ⟨.stackOverflow, place⟩ := by
  unfold World.readLocal at fails
  split at fails
  · cases fails
  · obtain rfl := Except.error.inj fails
    simp [Fault.ofBreach]

theorem readVariable_ne_overflow {reference : Reference} {fault : Fault}
    (fails : world.readVariable reference = .error fault) : fault ≠ ⟨.stackOverflow, place⟩ := by
  unfold World.readVariable at fails
  split at fails
  · exact readLocal_ne_overflow _ fails
  · split at fails
    · cases fails
    · obtain rfl := Except.error.inj fails
      simp [Fault.ofViolation]

theorem assignmentFault?_ne_overflow {reference : Reference} {fault : Fault}
    (fails : world.assignmentFault? reference = some fault) : fault ≠ ⟨.stackOverflow, place⟩ := by
  unfold World.assignmentFault? World.localFault? at fails
  split at fails
  · split at fails
    · cases fails
    · obtain rfl := Option.some.inj fails
      simp [Fault.ofBreach]
  · split at fails
    · cases fails
    · obtain rfl := Option.some.inj fails
      simp [Fault.ofViolation]

theorem printFault?_ne_overflow {fault : Fault} (fails : world.printFault? span = some fault) :
    fault ≠ ⟨.stackOverflow, place⟩ := by
  obtain ⟨reason, _, rfl⟩ := Option.map_eq_some_iff.mp fails
  simp [Fault.ofBreach]

theorem ofResult_ne_overflow {stack : Stack .value} {result : Except Fault Value}
    (calm : ∀ fault, result = .error fault → fault ≠ ⟨.stackOverflow, place⟩) :
    (ofResult world stack result).fault? ≠ some ⟨.stackOverflow, place⟩ := by
  cases result with
  | ok value => simp [ofResult, fault?]
  | error fault =>
      intro overflows
      exact calm fault rfl (Option.some.inj overflows)

theorem ofOperation_ne_overflow (stack : Stack .value) (result : Except Fault.Violation Value) :
    (ofOperation world span stack result).fault? ≠ some ⟨.stackOverflow, place⟩ := by
  cases result <;> simp [ofOperation, fault?, Fault.ofViolation]

/-- Once there was room for a call, its start does not overflow. -/
theorem start_ne_overflow (world : World) (span place : Span) (callable : Callable) (arguments : List Value) (stack : Stack .value) :
    (start world callable arguments span stack).fault? ≠ some ⟨.stackOverflow, place⟩ := by
  cases callable with
  | function function =>
      simp [start, enterFunction, inEnvironment, fault?_statements]
  | native native =>
      simp only [start, callNative]
      split
      · simp [fault?, Fault.ofBreach]
      · split <;> simp [fault?, Fault.ofViolation]
  | «class» origin =>
      simp only [start, construct]
      split
      · simp [fault?]
      · simp [enterFunction, inEnvironment, fault?_statements]

theorem invoke_overflows_iff (callable : Callable) (arguments : List Value)
    (stack : Stack .value) :
    (invoke world callable arguments span stack).fault? = some ⟨.stackOverflow, place⟩ ↔
      world.callLimit ≤ world.callDepth ∧ span = place := by
  unfold invoke
  split
  · next full => simp [fault?, full]
  · next room =>
      have calm := start_ne_overflow { world with callDepth := world.callDepth + 1 } span place callable
        arguments (.push .call stack)
      simp [room, calm]

theorem callValue_overflows_iff (callee : Value) (arguments : List Value) (stack : Stack .value) :
    (callValue world callee arguments span stack).fault? = some ⟨.stackOverflow, place⟩ ↔
      callee.Takes arguments.length ∧ world.callLimit ≤ world.callDepth ∧ span = place := by
  unfold callValue Value.Takes
  cases callable : callee.callable? with
  | none => simp [fault?, Fault.ofViolation]
  | some called =>
      by_cases arity : arguments.length = called.arity
      · simp [arity, invoke_overflows_iff]
      · simp [arity, fault?, Fault.ofViolation]

theorem methodOf_overflows_iff (origin : Class) (receiver : Instance) (name : Name)
    (stack : Stack .value) :
    (methodOf world origin receiver name stack).fault? = some ⟨.stackOverflow, place⟩ ↔
      (∃ method, origin.method? name.text = some method ∧ method.declaration.isGetter = true) ∧
        world.callLimit ≤ world.callDepth ∧ name.span = place := by
  unfold methodOf
  cases found : origin.method? name.text with
  | none => simp [fault?, Fault.ofViolation]
  | some method =>
      have sameDeclaration : (world.bindMethod method receiver).1.declaration = method.declaration :=
        rfl
      have sameDepth : (world.bindMethod method receiver).2.callDepth = world.callDepth := rfl
      have sameLimit : (world.bindMethod method receiver).2.callLimit = world.callLimit := rfl
      cases runs : method.declaration.isGetter with
      | true =>
          simp [boundMethod, sameDeclaration, runs, invoke_overflows_iff, sameDepth, sameLimit]
      | false => simp [boundMethod, sameDeclaration, runs, fault?]

/-- An expression overflows only where it reads a getter of the superclass. -/
theorem evaluate_overflows_iff (expr : Expr) (stack : Stack .value) :
    (beginExpr world stack expr).fault? = some ⟨.stackOverflow, place⟩ ↔
      Calls (.evaluate world expr stack) place ∧ world.callLimit ≤ world.callDepth := by
  constructor
  · intro overflows
    cases expr with
    | «variable» reference =>
        exact absurd overflows (ofResult_ne_overflow fun _ fails => readVariable_ne_overflow fails)
    | this address at_ =>
        cases address with
        | none => simp [beginExpr, fault?, Fault.ofBreach] at overflows
        | some address =>
            exact absurd overflows
              (ofResult_ne_overflow fun _ fails => readLocal_ne_overflow address fails)
    | super address name at_ =>
        simp only [beginExpr] at overflows
        unfold superMethod at overflows
        split at overflows
        · simp [fault?, Fault.ofBreach] at overflows
        · simp [fault?, Fault.ofBreach] at overflows
        · split at overflows
          · next fails =>
              exact absurd (Option.some.inj overflows) (readLocal_ne_overflow _ fails)
          · next atSuper =>
              split at overflows
              · next fails =>
                  exact absurd (Option.some.inj overflows) (readLocal_ne_overflow _ fails)
              · next atThis =>
                  obtain ⟨⟨method, found, runs⟩, full, rfl⟩ :=
                    (methodOf_overflows_iff _ _ name stack).mp overflows
                  exact ⟨.inheritedGetter atSuper atThis found runs, full⟩
              · simp [fault?, Fault.ofBreach] at overflows
          · simp [fault?, Fault.ofBreach] at overflows
    | _ => simp [beginExpr, fault?] at overflows
  · intro calling
    obtain ⟨calls, full⟩ := calling
    cases calls with
    | inheritedGetter atSuper atThis found runs =>
        simp only [beginExpr, superMethod, atSuper, atThis]
        exact (methodOf_overflows_iff _ _ _ stack).mpr ⟨⟨_, found, runs⟩, full, rfl⟩

theorem execute_ne_overflow (stmt : Stmt) (stack : Stack .flow) :
    (beginStmt world stack stmt).fault? ≠ some ⟨.stackOverflow, place⟩ := by
  cases stmt with
  | var name initializer at_ => cases initializer <;> simp [beginStmt, fault?]
  | block body at_ => simp [beginStmt, inEnvironment, fault?_statements]
  | «return» value at_ => cases value <;> simp [beginStmt, fault?]
  | «class» name superclass methods at_ =>
      simp only [beginStmt]
      unfold executeClass
      split
      · simp [declareClass, fault?]
      · split
        · next fails =>
            intro overflows
            exact readVariable_ne_overflow fails (Option.some.inj overflows)
        · simp [declareClass, fault?]
        · simp [fault?, Fault.ofViolation]
  | _ => simp [beginStmt, fault?]

/-- A value that arrives makes an overflow only as the last of a call, or as the object of
a getter. -/
theorem giveValue_overflows_iff (found : Value) {outcome : Awaited}
    (frame : Frame .value outcome) (stack : Stack outcome) :
    (giveValue world found frame stack).fault? = some ⟨.stackOverflow, place⟩ ↔
      Calls (.answer world found (.push frame stack)) place ∧
        world.callLimit ≤ world.callDepth := by
  constructor
  · intro overflows
    cases frame with
    | assign target =>
        simp only [giveValue] at overflows
        split at overflows
        · next fails =>
            exact absurd (Option.some.inj overflows) (assignmentFault?_ne_overflow fails)
        · cases overflows
    | unary operator at_ => exact absurd overflows (ofOperation_ne_overflow stack _)
    | rightOperand operator left at_ => exact absurd overflows (ofOperation_ne_overflow stack _)
    | logical operator right =>
        simp only [giveValue] at overflows
        split at overflows <;> cases overflows
    | callee arguments at_ =>
        cases arguments with
        | nil =>
            obtain ⟨takes, full, rfl⟩ := (callValue_overflows_iff found [] stack).mp overflows
            exact ⟨.withoutArguments takes, full⟩
        | cons first rest => cases overflows
    | argument callee before others at_ =>
        cases others with
        | nil =>
            obtain ⟨takes, full, rfl⟩ :=
              (callValue_overflows_iff callee (found :: before).reverse stack).mp overflows
            rw [List.length_reverse] at takes
            exact ⟨.lastArgument takes, full⟩
        | cons first rest => cases overflows
    | property name =>
        cases found with
        | «instance» object =>
            simp only [giveValue, property] at overflows
            split at overflows
            · cases overflows
            · next noField =>
                obtain ⟨⟨method, present, runs⟩, full, rfl⟩ :=
                  (methodOf_overflows_iff object.origin object name stack).mp overflows
                exact ⟨.getter noField present runs, full⟩
        | _ => simp [giveValue, fault?, Fault.ofViolation] at overflows
    | fieldObject name value =>
        cases found <;> simp [giveValue, fault?, Fault.ofViolation] at overflows
    | print at_ =>
        simp only [giveValue] at overflows
        split at overflows
        · next fails => exact absurd (Option.some.inj overflows) (printFault?_ne_overflow fails)
        · cases overflows
    | branch thenBranch elseBranch =>
        simp only [giveValue] at overflows
        split at overflows
        · cases overflows
        · split at overflows <;> cases overflows
    | condition loop =>
        simp only [giveValue] at overflows
        split at overflows <;> cases overflows
    | _ => cases overflows
  · intro calling
    obtain ⟨calls, full⟩ := calling
    cases calls with
    | withoutArguments takes => exact (callValue_overflows_iff found [] _).mpr ⟨takes, full, rfl⟩
    | @lastArgument _ callee _ before _ _ takes =>
        refine (callValue_overflows_iff callee (found :: before).reverse _).mpr ⟨?_, full, rfl⟩
        rw [List.length_reverse]
        exact takes
    | getter noField present runs =>
        simp only [giveValue, property, noField]
        exact (methodOf_overflows_iff _ _ _ _).mpr ⟨⟨_, present, runs⟩, full, rfl⟩

theorem giveFlow_ne_overflow (flow : Flow) {outcome : Awaited} (frame : Frame .flow outcome)
    (stack : Stack outcome) :
    (giveFlow world flow frame stack).fault? ≠ some ⟨.stackOverflow, place⟩ := by
  cases frame with
  | round loop =>
      simp only [giveFlow]
      split
      · simp [fault?]
      · simp [fault?]
      · split <;> simp [testLoop, fault?]
  | sequence others =>
      simp only [giveFlow]
      split
      · simp [fault?_statements]
      · simp [fault?]
  | leave previous => simp [giveFlow, fault?]
  | body function at_ =>
      simp only [giveFlow, endBody]
      split
      · split <;> simp [fault?, Fault.ofBreach]
      · split <;> simp [fault?]

/-- A step overflows exactly if it is to start a call and the limit is reached. -/
theorem overflows_iff (machine : Machine) (span : Span) :
    machine.Overflows span ↔
      machine.Calls span ∧ machine.world.callLimit ≤ machine.world.callDepth := by
  cases machine with
  | evaluate world expr stack =>
      simp only [Overflows, fault?, next, true_and, Machine.world]
      exact evaluate_overflows_iff expr stack
  | execute world stmt stack =>
      simp only [Overflows, fault?, next, true_and]
      constructor
      · intro overflows
        exact absurd overflows (execute_ne_overflow stmt stack)
      · intro calling
        cases calling.1
  | answer world found stack =>
      cases stack with
      | empty =>
          simp only [Overflows, fault?, next, true_and]
          constructor
          · intro overflows
            cases overflows
          · intro calling
            cases calling.1
      | push frame rest =>
          simp only [Overflows, fault?, next, true_and, Machine.world]
          exact giveValue_overflows_iff found frame rest
  | finish world flow stack =>
      constructor
      · intro overflows
        cases stack with
        | empty => cases overflows.2
        | push frame rest => exact absurd overflows.2 (giveFlow_ne_overflow flow frame rest)
      · intro calling
        cases calling.1
  | raise world fault stack =>
      constructor
      · intro overflows
        cases overflows.1
      · intro calling
        cases calling.1

/-! ## Runs -/

/-- In this world the machine begins to evaluate or to execute something, with nothing
behind it. -/
inductive Begins (world : World) : Machine → Prop where
  | evaluate (expr : Expr) : Begins world (.evaluate world expr .empty)
  | execute (stmt : Stmt) : Begins world (.execute world stmt .empty)

/-- How many bodies of functions the machine has in progress. -/
def bodies : Machine → Nat
  | .evaluate _ _ stack => stack.bodies
  | .execute _ _ stack => stack.bodies
  | .answer _ _ stack => stack.bodies
  | .finish _ _ stack => stack.bodies
  | .raise _ _ stack => stack.bodies

theorem Begins.balanced {machine : Machine} (begins : machine.Begins world)
    (within : world.callDepth ≤ world.callLimit) : machine.Balanced world := by
  cases begins <;> exact ⟨rfl, rfl, rfl, within, trivial⟩

section Balanced

variable {origin : World} {machine : Machine}

theorem Balanced.callLimit (balanced : machine.Balanced origin) :
    machine.world.callLimit = origin.callLimit := by
  cases machine <;> exact Stack.Balanced.callLimit balanced

theorem Balanced.within (balanced : machine.Balanced origin) :
    machine.world.callDepth ≤ machine.world.callLimit := by
  cases machine <;> exact Stack.Balanced.within balanced

theorem Balanced.bodies_le (balanced : machine.Balanced origin) :
    origin.callDepth + machine.bodies ≤ machine.world.callDepth := by
  cases machine <;> exact Stack.Balanced.bodies_le balanced

theorem Balanced.restored (balanced : machine.Balanced origin) (done : machine.isDone = true) :
    machine.world.scope = origin.scope ∧ machine.world.callDepth = origin.callDepth := by
  cases machine with
  | evaluate => cases done
  | execute => cases done
  | answer world found stack =>
      cases stack with
      | empty => exact ⟨Stack.Balanced.scope balanced, Stack.Balanced.callDepth balanced⟩
      | push frame rest => cases done
  | finish world flow stack =>
      cases stack with
      | empty => exact ⟨Stack.Balanced.scope balanced, Stack.Balanced.callDepth balanced⟩
      | push frame rest => cases done
  | raise world fault stack =>
      cases stack with
      | empty => exact ⟨Stack.Balanced.scope balanced, Stack.Balanced.callDepth balanced⟩
      | push frame rest => cases done

end Balanced

end Machine

namespace World

variable {world : World}

theorem atTopLevel_eq_self_iff :
    world.atTopLevel = world ↔ world.scope = none ∧ world.callDepth = 0 := by
  constructor
  · intro same
    rw [← same]
    exact ⟨rfl, rfl⟩
  · intro top
    obtain ⟨scope, callDepth⟩ := top
    unfold atTopLevel
    rw [← scope, ← callDepth]

/-- A completed statement leaves the world where it was. -/
theorem restored_runStatement (within : world.callDepth ≤ world.callLimit) {budget : Nat}
    {stmt : Stmt} {reached : World}
    (completed : world.runStatement budget stmt = (.completed, reached)) :
    reached.scope = world.scope ∧ reached.callDepth = world.callDepth := by
  have balanced := ((Machine.Begins.execute stmt).balanced within).run budget
  unfold runStatement at completed
  split at completed
  · next ended =>
      obtain rfl := (Prod.mk.inj completed).2
      rw [ended] at balanced
      exact balanced.restored rfl
  · cases (Prod.mk.inj completed).1
  · cases (Prod.mk.inj completed).1

/-- However a program ends, the world is at top level again. -/
theorem atTopLevel_interpret (budget : Nat) (stmts : List Stmt)
    (atTop : world.atTopLevel = world) :
    (world.interpret budget stmts).2.atTopLevel = (world.interpret budget stmts).2 := by
  induction stmts generalizing world with
  | nil =>
      simp only [interpret]
      split <;> exact atTop
  | cons stmt others inductionHypothesis =>
      simp only [interpret]
      split
      · next reached completed =>
          obtain ⟨scope, callDepth⟩ := atTopLevel_eq_self_iff.mp atTop
          have within : world.callDepth ≤ world.callLimit := by
            rw [callDepth]
            exact Nat.zero_le _
          obtain ⟨sameScope, sameDepth⟩ := restored_runStatement within completed
          exact inductionHypothesis
            (atTopLevel_eq_self_iff.mpr ⟨sameScope.trans scope, sameDepth.trans callDepth⟩)
      · rfl

/-- From any world in which no more calls are in progress than the limit allows: whatever
is evaluated or executed, and however it ends, gives back the environment and the call
depth that it was given; on the way the depth never exceeds the limit, nor do the bodies
in progress, those outside included; and a stack overflow is made exactly by a call that
is to start at the limit. A program leaves the world at top level. -/
theorem restores_and_limits (world : World) (within : world.callDepth ≤ world.callLimit) :
    (∀ machine : Machine, machine.Begins world → ∀ steps : Nat,
      ((machine.run steps).isDone = true →
        (machine.run steps).world.scope = world.scope ∧
          (machine.run steps).world.callDepth = world.callDepth) ∧
      (machine.run steps).world.callDepth ≤ world.callLimit ∧
      world.callDepth + (machine.run steps).bodies ≤ world.callLimit ∧
      ∀ span, (machine.run steps).Overflows span ↔
        (machine.run steps).Calls span ∧
          (machine.run steps).world.callDepth = world.callLimit) ∧
    ∀ (budget : Nat) (stmts : List Stmt), world.atTopLevel = world →
      (world.interpret budget stmts).2.atTopLevel = (world.interpret budget stmts).2 := by
  refine ⟨?_, fun budget stmts => atTopLevel_interpret budget stmts⟩
  intro machine begins steps
  have balanced := (begins.balanced within).run steps
  have limit := balanced.callLimit
  have depth := balanced.within
  have bodies := balanced.bodies_le
  refine ⟨balanced.restored, limit ▸ depth, by omega, ?_⟩
  intro span
  rw [Machine.overflows_iff, limit]
  rw [limit] at depth
  refine and_congr_right fun _ => ⟨?_, ?_⟩
  · intro full
    exact Nat.le_antisymm depth full
  · intro same
    exact Nat.le_of_eq same.symm

/-- With room for one call only, `(fun () { (fun () {})(); })()` makes a stack overflow at
the inner call, which is about to start in the seventh machine, and ends with it where it
began. -/
theorem restores_and_limits_nested :
    let world := World.initial 1 .working (.still 0)
    let word : Name := ⟨"fun", ⟨1, 1, 3⟩⟩
    let inner : Expr := .call (.lambda ⟨word, [], [], false⟩) [] ⟨1, 24, 1⟩
    let outer : Expr := .call (.lambda ⟨word, [], [.expression inner ⟨1, 11, 1⟩], false⟩) [] ⟨1, 29, 1⟩
    let machine : Machine := .evaluate world outer .empty
    world.callDepth ≤ world.callLimit ∧
      (machine.run 6).Overflows ⟨1, 24, 1⟩ ∧
      (machine.run 12).isDone = true ∧ (machine.run 12).world.scope = none ∧
      (machine.run 12).world.callDepth = 0 := by
  intro world word inner outer machine
  have within : world.callDepth ≤ world.callLimit := Nat.zero_le 1
  have guarantees := (restores_and_limits world within).1 machine (.evaluate outer)
  obtain ⟨_, _, _, overflows⟩ := guarantees 6
  obtain ⟨restored, _, _, _⟩ := guarantees 12
  have calls : (machine.run 6).Calls ⟨1, 24, 1⟩ := .withoutArguments ⟨_, rfl, rfl⟩
  exact ⟨within, (overflows _).mpr ⟨calls, rfl⟩, rfl, restored rfl⟩

end World

end Lox
