import Lox.Machine.Interpret

/-!
Contract: what a run takes from its host.

The natives, the limit on calls and the outlet come from the host. A run looks at
them and leaves them as they are; only the host itself provides further natives.

Main statements: `Machine.run_host`, `World.interpret_host`.

Owns: the part of a world that no run changes. Does not own: what a run does with it.
-/

set_option autoImplicit false

namespace Lox

/-- What a world has from its host. -/
structure Host where
  natives : Array Operation
  callLimit : Nat
  outlet : Outlet

namespace World

/-- What the world has from its host. -/
def host (world : World) : Host := ⟨world.natives, world.callLimit, world.outlet⟩

variable (world : World)

@[simp] theorem host_define (name : String) (value : Value) :
    (world.define name value).host = world.host := by
  unfold define
  split <;> rfl

@[simp] theorem host_assign (reference : Reference) (value : Value) :
    (world.assign reference value).host = world.host := by
  unfold assign
  split
  · unfold assignLocal
    split <;> rfl
  · rfl

@[simp] theorem host_makeMethods (closure : Option EnvironmentRef)
    (methods : List FunctionDeclaration) : (makeMethods closure methods world).2.host = world.host := by
  induction methods generalizing world with
  | nil => rfl
  | cons declaration rest inductionHypothesis => exact inductionHypothesis _

@[simp] theorem host_makeClass (name : String) (superclass : Option Class)
    (closure : Option EnvironmentRef) (methods : List FunctionDeclaration) :
    (world.makeClass name superclass closure methods).2.host = world.host :=
  world.host_makeMethods closure methods

end World

namespace Machine

variable (world : World)

theorem host_ofResult (stack : Stack .value) (result : Except Fault Value) :
    (ofResult world stack result).world.host = world.host := by
  cases result <;> rfl

theorem host_ofOperation (span : Span) (stack : Stack .value)
    (result : Except Fault.Violation Value) :
    (ofOperation world span stack result).world.host = world.host := by
  cases result <;> rfl

theorem host_statements (stack : Stack .flow) (body : List Stmt) :
    (statements world stack body).world.host = world.host := by
  cases body <;> rfl

/-! ## Calls and properties -/

theorem host_inEnvironment (enclosing : Option EnvironmentRef) (values : Array Value)
    (body : List Stmt) (stack : Stack .flow) :
    (inEnvironment world enclosing values body stack).world.host = world.host :=
  host_statements (world.enter enclosing values) _ body

theorem host_start (callable : Callable) (arguments : List Value) (span : Span)
    (stack : Stack .value) : (start world callable arguments span stack).world.host = world.host := by
  cases callable with
  | function function => exact host_inEnvironment world _ _ _ _
  | native native =>
      simp only [start, callNative]
      split
      · rfl
      · split <;> rfl
  | «class» origin =>
      simp only [start, construct]
      split
      · rfl
      · exact host_inEnvironment _ _ _ _ _

theorem host_invoke (callable : Callable) (arguments : List Value) (span : Span)
    (stack : Stack .value) : (invoke world callable arguments span stack).world.host = world.host := by
  simp only [invoke]
  split
  · rfl
  · exact host_start { world with callDepth := world.callDepth + 1 } callable arguments span _

theorem host_callValue (callee : Value) (arguments : List Value) (span : Span)
    (stack : Stack .value) : (callValue world callee arguments span stack).world.host = world.host := by
  simp only [callValue]
  split
  · rfl
  · split
    · exact host_invoke world _ arguments span stack
    · rfl

theorem host_methodOf (origin : Class) (receiver : Instance) (name : Name)
    (stack : Stack .value) : (methodOf world origin receiver name stack).world.host = world.host := by
  simp only [methodOf, boundMethod]
  split
  · split
    · exact host_invoke _ _ [] name.span stack
    · rfl
  · rfl

theorem host_property (object : Instance) (name : Name) (stack : Stack .value) :
    (property world object name stack).world.host = world.host := by
  simp only [property]
  split
  · rfl
  · exact host_methodOf world object.origin object name stack

theorem host_superMethod (address : Option Address) (name : Name) (span : Span)
    (stack : Stack .value) :
    (superMethod world address name span stack).world.host = world.host := by
  unfold superMethod
  split
  · rfl
  · rfl
  · split
    · rfl
    · split
      · rfl
      · exact host_methodOf world _ _ name stack
      · rfl
    · rfl

/-! ## Steps -/

theorem host_beginExpr (stack : Stack .value) (expr : Expr) :
    (beginExpr world stack expr).world.host = world.host := by
  cases expr with
  | «variable» reference => exact host_ofResult world stack _
  | this address span =>
      cases address with
      | none => rfl
      | some address => exact host_ofResult world stack _
  | super address method span => exact host_superMethod world address method span stack
  | _ => rfl

theorem host_executeClass (name : Name) (superclass : Option Reference)
    (methods : List FunctionDeclaration) (stack : Stack .flow) :
    (executeClass world name superclass methods stack).world.host = world.host := by
  unfold executeClass declareClass
  split
  · simp [Machine.world]
  · split
    · rfl
    · simp only [Machine.world, World.host_define, World.host_makeClass]
      rfl
    · rfl

theorem host_beginStmt (stack : Stack .flow) (stmt : Stmt) :
    (beginStmt world stack stmt).world.host = world.host := by
  cases stmt with
  | var name initializer span =>
      cases initializer with
      | none => exact world.host_define name.text .nil
      | some value => rfl
  | block body span => exact host_inEnvironment world world.scope #[] body stack
  | function declaration span => exact World.host_define _ declaration.name.text _
  | «return» value span => cases value <;> rfl
  | «class» name superclass methods span => exact host_executeClass world name superclass methods stack
  | _ => rfl

theorem host_giveValue (found : Value) {outcome : Awaited} (frame : Frame .value outcome)
    (stack : Stack outcome) : (giveValue world found frame stack).world.host = world.host := by
  cases frame with
  | assign target =>
      simp only [giveValue]
      split
      · rfl
      · exact world.host_assign target found
  | unary operator span => exact host_ofOperation world span stack _
  | rightOperand operator left span => exact host_ofOperation world span stack _
  | logical operator right =>
      simp only [giveValue]
      split <;> rfl
  | callee arguments span =>
      cases arguments with
      | nil => exact host_callValue world found [] span stack
      | cons first rest => rfl
  | argument callee before others span =>
      cases others with
      | nil => exact host_callValue world callee _ span stack
      | cons first rest => rfl
  | property name =>
      simp only [giveValue]
      split
      · exact host_property world _ name stack
      · rfl
  | fieldObject name value =>
      simp only [giveValue]
      split <;> rfl
  | print span =>
      simp only [giveValue]
      split <;> rfl
  | declare name => exact world.host_define name.text found
  | branch thenBranch elseBranch =>
      simp only [giveValue]
      split
      · rfl
      · split <;> rfl
  | condition loop =>
      simp only [giveValue]
      split <;> rfl
  | _ => rfl

theorem host_giveFlow (flow : Flow) {outcome : Awaited} (frame : Frame .flow outcome)
    (stack : Stack outcome) : (giveFlow world flow frame stack).world.host = world.host := by
  cases frame with
  | round loop =>
      simp only [giveFlow]
      split
      · rfl
      · rfl
      · split <;> rfl
  | sequence others =>
      simp only [giveFlow]
      split
      · exact host_statements world stack others
      · rfl
  | leave previous => rfl
  | body function span =>
      simp only [giveFlow, endBody]
      split
      · split <;> rfl
      · split <;> rfl

theorem host_unwind {awaited outcome : Awaited} (frame : Frame awaited outcome) :
    (unwind world frame).host = world.host := by
  cases frame <;> rfl

/-- A step leaves the host as it is. -/
theorem next_host (machine : Machine) : machine.next.world.host = machine.world.host := by
  cases machine with
  | evaluate world expr stack => exact host_beginExpr world stack expr
  | execute world stmt stack => exact host_beginStmt world stack stmt
  | answer world found stack =>
      cases stack with
      | empty => rfl
      | push frame rest => exact host_giveValue world found frame rest
  | finish world flow stack =>
      cases stack with
      | empty => rfl
      | push frame rest => exact host_giveFlow world flow frame rest
  | raise world fault stack =>
      cases stack with
      | empty => rfl
      | push frame rest => exact host_unwind world frame

/-- A run leaves the host as it is. -/
theorem run_host (steps : Nat) (machine : Machine) :
    (machine.run steps).world.host = machine.world.host := by
  induction steps generalizing machine with
  | zero => rfl
  | succ steps inductionHypothesis =>
      simp only [run]
      split
      · rfl
      · exact (inductionHypothesis machine.next).trans machine.next_host

end Machine

/-! ## Programs -/

namespace World

theorem runStatement_host (budget : Nat) (world : World) (stmt : Stmt) :
    (world.runStatement budget stmt).2.host = world.host := by
  have kept := Machine.run_host budget (.execute world stmt .empty)
  unfold runStatement
  split
  · next finished => rwa [finished] at kept
  · next raised => rwa [raised] at kept
  · exact kept

theorem interpret_host (budget : Nat) (stmts : List Stmt) (world : World) :
    (world.interpret budget stmts).2.host = world.host := by
  induction stmts generalizing world with
  | nil =>
      simp only [interpret]
      split <;> rfl
  | cons stmt others inductionHypothesis =>
      have kept := runStatement_host budget world stmt
      simp only [interpret]
      split
      · next reached ran =>
          rw [ran] at kept
          exact (inductionHypothesis reached).trans kept
      · next reached ran =>
          rw [ran] at kept
          exact kept

end World

end Lox
