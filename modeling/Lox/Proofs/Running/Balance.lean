import Lox.Machine.Interpret

/-!
Contract: a run gives back the environment and the call depth that it was given.

The frames of a stack know what they will restore: the environment that the innermost
frame which left one goes back to, and one call for every call in progress. So in every
machine of a run the present environment and depth, taken back through the frames, are
those of the start (`Stack.Balanced`). Nothing is asked of the tree that runs, of its
addresses or of the world.

Main statement: `Machine.Balanced.run`.

Owns: balanced stacks, the bound on the calls and bodies in progress. Does not own: when
a call is too deep.
-/

set_option autoImplicit false

namespace Lox

/-! ## What frames restore -/

/-- How many calls the frame stands for. -/
def Frame.calls {awaited outcome : Awaited} : Frame awaited outcome → Nat
  | .call => 1
  | _ => 0

/-- How many bodies of functions the frame stands for. -/
def Frame.bodies {awaited outcome : Awaited} : Frame awaited outcome → Nat
  | .body _ _ => 1
  | _ => 0

/-- The environment behind the frame, if this is the one in front of it. -/
def Frame.scopeBehind {awaited outcome : Awaited} (scope : Option EnvironmentRef) :
    Frame awaited outcome → Option EnvironmentRef
  | .leave previous => previous
  | _ => scope

namespace Stack

/-- The calls in progress. -/
def calls : {awaited : Awaited} → Stack awaited → Nat
  | _, .empty => 0
  | _, .push frame rest => frame.calls + rest.calls

/-- The bodies of functions in progress. -/
def bodies : {awaited : Awaited} → Stack awaited → Nat
  | _, .empty => 0
  | _, .push frame rest => frame.bodies + rest.bodies

/-- The environment behind all frames. -/
def scopeBehind : {awaited : Awaited} → Option EnvironmentRef → Stack awaited →
    Option EnvironmentRef
  | _, scope, .empty => scope
  | _, scope, .push frame rest => rest.scopeBehind (frame.scopeBehind scope)

/-- However many frames are taken off, no more bodies than calls are in progress. -/
def Covered : {awaited : Awaited} → Stack awaited → Prop
  | _, .empty => True
  | _, .push frame rest => frame.bodies + rest.bodies ≤ frame.calls + rest.calls ∧ rest.Covered

theorem Covered.bodies_le {awaited : Awaited} {stack : Stack awaited} (covered : stack.Covered) :
    stack.bodies ≤ stack.calls := by
  cases stack with
  | empty => exact Nat.le_refl 0
  | push frame rest => exact covered.1

end Stack

/-! ## The place of a run -/

/-- The environment, the call depth and its limit are the same. -/
structure World.SamePlace (before after : World) : Prop where
  scope : after.scope = before.scope
  callDepth : after.callDepth = before.callDepth
  callLimit : after.callLimit = before.callLimit

namespace World

theorem SamePlace.refl (world : World) : SamePlace world world := ⟨rfl, rfl, rfl⟩

theorem SamePlace.trans {first second third : World} (one : SamePlace first second)
    (two : SamePlace second third) : SamePlace first third where
  scope := two.scope.trans one.scope
  callDepth := two.callDepth.trans one.callDepth
  callLimit := two.callLimit.trans one.callLimit

theorem samePlace_define (world : World) (name : String) (value : Value) :
    SamePlace world (world.define name value) := by
  unfold define
  split <;> exact ⟨rfl, rfl, rfl⟩

theorem samePlace_assign (world : World) (reference : Reference) (value : Value) :
    SamePlace world (world.assign reference value) := by
  unfold assign
  split
  · unfold assignLocal
    split <;> exact ⟨rfl, rfl, rfl⟩
  · exact ⟨rfl, rfl, rfl⟩

theorem samePlace_makeMethods (closure : Option EnvironmentRef)
    (methods : List FunctionDeclaration) (world : World) :
    SamePlace world (makeMethods closure methods world).2 := by
  induction methods generalizing world with
  | nil => exact .refl world
  | cons declaration rest inductionHypothesis =>
      have made : SamePlace world (world.makeFunction declaration closure declaration.isInitializer).2 :=
        ⟨rfl, rfl, rfl⟩
      exact made.trans (inductionHypothesis _)

theorem samePlace_makeClass (world : World) (name : String) (superclass : Option Class)
    (closure : Option EnvironmentRef) (methods : List FunctionDeclaration) :
    SamePlace world (world.makeClass name superclass closure methods).2 := by
  have methodsMade := samePlace_makeMethods closure methods world
  exact ⟨methodsMade.scope, methodsMade.callDepth, methodsMade.callLimit⟩

end World

/-! ## Balanced stacks -/

/-- In this world the stack leads back to the place where the run began, and no more calls
are in progress than the limit allows. -/
structure Stack.Balanced (start world : World) {awaited : Awaited} (stack : Stack awaited) :
    Prop where
  scope : stack.scopeBehind world.scope = start.scope
  callDepth : world.callDepth = start.callDepth + stack.calls
  callLimit : world.callLimit = start.callLimit
  within : world.callDepth ≤ world.callLimit
  covered : stack.Covered

/-- The stack of the machine leads back to the place where the run began. -/
def Machine.Balanced (start : World) : Machine → Prop
  | .evaluate world _ stack => stack.Balanced start world
  | .execute world _ stack => stack.Balanced start world
  | .answer world _ stack => stack.Balanced start world
  | .finish world _ stack => stack.Balanced start world
  | .raise world _ stack => stack.Balanced start world

namespace Stack.Balanced

-- The equations are derived once here, not in each of the proofs below.
attribute [local simp] calls scopeBehind Frame.calls Frame.bodies

variable {start world after : World} {awaited outcome : Awaited}

theorem moved {stack : Stack awaited} (balanced : stack.Balanced start world)
    (same : World.SamePlace world after) : stack.Balanced start after where
  scope := by
    rw [same.scope]
    exact balanced.scope
  callDepth := same.callDepth.trans balanced.callDepth
  callLimit := same.callLimit.trans balanced.callLimit
  within := by
    rw [same.callDepth, same.callLimit]
    exact balanced.within
  covered := balanced.covered

/-- Each body in progress has a call of its own, begun since the start. -/
theorem bodies_le {stack : Stack awaited} (balanced : stack.Balanced start world) :
    start.callDepth + stack.bodies ≤ world.callDepth := by
  have depth := balanced.callDepth
  have covered := balanced.covered.bodies_le
  omega

/-- A frame that neither leaves an environment nor begins a call or a body. -/
theorem push {stack : Stack outcome} (balanced : stack.Balanced start world)
    (frame : Frame awaited outcome) (noCall : frame.calls = 0) (noBody : frame.bodies = 0)
    (stays : frame.scopeBehind world.scope = world.scope) :
    (Stack.push frame stack).Balanced start world where
  scope := by
    simp only [scopeBehind, stays]
    exact balanced.scope
  callDepth := by
    simp only [calls, noCall, Nat.zero_add]
    exact balanced.callDepth
  callLimit := balanced.callLimit
  within := balanced.within
  covered := by
    refine ⟨?_, balanced.covered⟩
    rw [noCall, noBody, Nat.zero_add, Nat.zero_add]
    exact balanced.covered.bodies_le

/-- A frame that neither leaves an environment nor ends a call. -/
theorem pop {frame : Frame awaited outcome} {stack : Stack outcome}
    (balanced : (Stack.push frame stack).Balanced start world) (noCall : frame.calls = 0)
    (stays : frame.scopeBehind world.scope = world.scope) : stack.Balanced start world where
  scope := by
    have behind := balanced.scope
    simp only [scopeBehind, stays] at behind
    exact behind
  callDepth := by
    have depth := balanced.callDepth
    simp only [calls, noCall, Nat.zero_add] at depth
    exact depth
  callLimit := balanced.callLimit
  within := balanced.within
  covered := balanced.covered.2

/-- One call deeper, if there is room for it. -/
theorem pushCall {stack : Stack .value} (balanced : stack.Balanced start world)
    (room : world.callDepth < world.callLimit) :
    (Stack.push .call stack).Balanced start { world with callDepth := world.callDepth + 1 } where
  scope := balanced.scope
  callDepth := by
    have depth := balanced.callDepth
    simp only [calls, Frame.calls]
    omega
  callLimit := balanced.callLimit
  within := room
  covered := by
    have bodiesLe := balanced.covered.bodies_le
    refine ⟨?_, balanced.covered⟩
    simp only [Frame.bodies, Frame.calls]
    omega

/-- The way back from a call. -/
theorem popCall {stack : Stack .value}
    (balanced : (Stack.push .call stack).Balanced start world) :
    stack.Balanced start { world with callDepth := world.callDepth - 1 } where
  scope := balanced.scope
  callDepth := by
    have depth := balanced.callDepth
    simp only [calls, Frame.calls] at depth
    show world.callDepth - 1 = start.callDepth + stack.calls
    omega
  callLimit := balanced.callLimit
  within := Nat.le_trans (Nat.sub_le _ _) balanced.within
  covered := balanced.covered.2

/-- The way back to the environment that was left. -/
theorem popLeave {previous : Option EnvironmentRef} {stack : Stack .flow}
    (balanced : (Stack.push (.leave previous) stack).Balanced start world) :
    stack.Balanced start (world.leaveTo previous) where
  scope := balanced.scope
  callDepth := by
    have depth := balanced.callDepth
    simp only [calls, Frame.calls, Nat.zero_add] at depth
    exact depth
  callLimit := balanced.callLimit
  within := balanced.within
  covered := balanced.covered.2

/-- A new environment, out of which the stack leads back. -/
theorem enter {stack : Stack .flow} (balanced : stack.Balanced start world)
    (enclosing : Option EnvironmentRef) (values : Array Value) :
    (Stack.push (.leave world.scope) stack).Balanced start (world.enter enclosing values) where
  scope := balanced.scope
  callDepth := by
    simp only [calls, Frame.calls, Nat.zero_add]
    exact balanced.callDepth
  callLimit := balanced.callLimit
  within := balanced.within
  covered := by
    have bodiesLe := balanced.covered.bodies_le
    refine ⟨?_, balanced.covered⟩
    simp only [Frame.bodies, Frame.calls]
    omega

/-- The body of a function, for which there is a call that has no body yet. -/
theorem pushBody {stack : Stack .value} (balanced : stack.Balanced start world)
    (awaits : stack.bodies < stack.calls) (function : Function) (span : Span) :
    (Stack.push (.body function span) stack).Balanced start world where
  scope := balanced.scope
  callDepth := by
    simp only [calls, Frame.calls, Nat.zero_add]
    exact balanced.callDepth
  callLimit := balanced.callLimit
  within := balanced.within
  covered := by
    refine ⟨?_, balanced.covered⟩
    simp only [Frame.bodies, Frame.calls]
    omega

end Stack.Balanced

/-! ## Steps -/

namespace Machine

variable {start world : World}

theorem balanced_ofResult {stack : Stack .value} (balanced : stack.Balanced start world)
    (result : Except Fault Value) : (ofResult world stack result).Balanced start := by
  cases result <;> exact balanced

theorem balanced_ofOperation {stack : Stack .value} (balanced : stack.Balanced start world)
    (span : Span) (result : Except Fault.Violation Value) :
    (ofOperation world span stack result).Balanced start := by
  cases result <;> exact balanced

theorem balanced_statements {stack : Stack .flow} (balanced : stack.Balanced start world)
    (body : List Stmt) : (statements world stack body).Balanced start := by
  cases body with
  | nil => exact balanced
  | cons first others => exact balanced.push (.sequence others) rfl rfl rfl

theorem balanced_inEnvironment {stack : Stack .flow} (balanced : stack.Balanced start world)
    (enclosing : Option EnvironmentRef) (values : Array Value) (body : List Stmt) :
    (inEnvironment world enclosing values body stack).Balanced start :=
  balanced_statements (balanced.enter enclosing values) body

theorem balanced_enterFunction {stack : Stack .value} (balanced : stack.Balanced start world)
    (awaits : stack.bodies < stack.calls) (function : Function) (arguments : List Value)
    (span : Span) : (enterFunction world function arguments span stack).Balanced start :=
  balanced_inEnvironment (balanced.pushBody awaits function span) function.closure _ _

theorem balanced_construct {stack : Stack .value} (balanced : stack.Balanced start world)
    (awaits : stack.bodies < stack.calls) (origin : Class) (arguments : List Value)
    (span : Span) : (construct world origin arguments span stack).Balanced start := by
  simp only [construct]
  split
  · exact balanced.moved ⟨rfl, rfl, rfl⟩
  · next initializer _ =>
      have pushed := balanced.push (.construct (world.makeInstance origin).1) rfl rfl rfl
      have bound : World.SamePlace world
          ((world.makeInstance origin).2.bindMethod initializer (world.makeInstance origin).1).2 :=
        ⟨rfl, rfl, rfl⟩
      refine balanced_enterFunction (pushed.moved bound) ?_ _ arguments span
      simp only [Stack.bodies, Stack.calls, Frame.bodies, Frame.calls, Nat.zero_add]
      exact awaits

theorem balanced_callNative {stack : Stack .value} (balanced : stack.Balanced start world)
    (native : Native) (arguments : List Value) (span : Span) :
    (callNative world native arguments span stack).Balanced start := by
  simp only [callNative]
  split
  · exact balanced
  · split <;> exact balanced.moved ⟨rfl, rfl, rfl⟩

theorem balanced_invoke {stack : Stack .value} (balanced : stack.Balanced start world)
    (callable : Callable) (arguments : List Value) (span : Span) :
    (invoke world callable arguments span stack).Balanced start := by
  simp only [invoke]
  split
  · exact balanced
  · next room =>
      have called := balanced.pushCall (Nat.lt_of_not_le room)
      have awaits : (Stack.push .call stack).bodies < (Stack.push .call stack).calls := by
        have bodiesLe := balanced.covered.bodies_le
        simp only [Stack.bodies, Stack.calls, Frame.bodies, Frame.calls]
        omega
      cases callable with
      | function function => exact balanced_enterFunction called awaits function arguments span
      | native native => exact balanced_callNative called native arguments span
      | «class» origin => exact balanced_construct called awaits origin arguments span

theorem balanced_callValue {stack : Stack .value} (balanced : stack.Balanced start world)
    (callee : Value) (arguments : List Value) (span : Span) :
    (callValue world callee arguments span stack).Balanced start := by
  simp only [callValue]
  split
  · exact balanced
  · split
    · exact balanced_invoke balanced _ arguments span
    · exact balanced

theorem balanced_methodOf {stack : Stack .value} (balanced : stack.Balanced start world)
    (origin : Class) (receiver : Instance) (name : Name) :
    (methodOf world origin receiver name stack).Balanced start := by
  simp only [methodOf]
  split
  · next method _ =>
      have bound : stack.Balanced start (world.bindMethod method receiver).2 :=
        balanced.moved ⟨rfl, rfl, rfl⟩
      simp only [boundMethod]
      split
      · exact balanced_invoke bound _ [] name.span
      · exact bound
  · exact balanced

theorem balanced_property {stack : Stack .value} (balanced : stack.Balanced start world)
    (object : Instance) (name : Name) : (property world object name stack).Balanced start := by
  simp only [property]
  split
  · exact balanced
  · exact balanced_methodOf balanced object.origin object name

theorem balanced_superMethod {stack : Stack .value} (balanced : stack.Balanced start world)
    (address : Option Address) (name : Name) (span : Span) :
    (superMethod world address name span stack).Balanced start := by
  unfold superMethod
  split
  · exact balanced
  · exact balanced
  · split
    · exact balanced
    · split
      · exact balanced
      · exact balanced_methodOf balanced _ _ name
      · exact balanced
    · exact balanced

theorem balanced_beginExpr {stack : Stack .value} (balanced : stack.Balanced start world)
    (expr : Expr) : (beginExpr world stack expr).Balanced start := by
  cases expr with
  | literal value span => exact balanced
  | grouping inner span => exact balanced
  | «variable» reference => exact balanced_ofResult balanced _
  | assign target value span => exact balanced.push (.assign target) rfl rfl rfl
  | unary operator operand span => exact balanced.push (.unary operator span) rfl rfl rfl
  | binary operator left right span =>
      exact balanced.push (.leftOperand operator right span) rfl rfl rfl
  | logical operator left right span => exact balanced.push (.logical operator right) rfl rfl rfl
  | call callee arguments span => exact balanced.push (.callee arguments span) rfl rfl rfl
  | get object name => exact balanced.push (.property name) rfl rfl rfl
  | set object name value span => exact balanced.push (.fieldObject name value) rfl rfl rfl
  | this address span =>
      cases address with
      | none => exact balanced
      | some address => exact balanced_ofResult balanced _
  | super address method span => exact balanced_superMethod balanced address method span
  | lambda function => exact balanced.moved ⟨rfl, rfl, rfl⟩

theorem balanced_declareClass {stack : Stack .flow} (balanced : stack.Balanced start world)
    (name : Name) (superclass : Option Class) (closure : Option EnvironmentRef)
    (methods : List FunctionDeclaration) :
    (declareClass world name superclass closure methods stack).Balanced start := by
  have made := World.samePlace_makeClass world name.text superclass closure methods
  exact balanced.moved (made.trans (World.samePlace_define _ name.text _))

theorem balanced_executeClass {stack : Stack .flow} (balanced : stack.Balanced start world)
    (name : Name) (superclass : Option Reference) (methods : List FunctionDeclaration) :
    (executeClass world name superclass methods stack).Balanced start := by
  unfold executeClass
  split
  · exact balanced_declareClass balanced name none world.scope methods
  · split
    · exact balanced
    · next inherited _ =>
        have allocated : stack.Balanced start (world.allocate world.scope #[.class inherited]).2 :=
          balanced.moved ⟨rfl, rfl, rfl⟩
        exact balanced_declareClass allocated name (some inherited) _ methods
    · exact balanced

theorem balanced_beginStmt {stack : Stack .flow} (balanced : stack.Balanced start world)
    (stmt : Stmt) : (beginStmt world stack stmt).Balanced start := by
  cases stmt with
  | expression value span => exact balanced.push .discard rfl rfl rfl
  | print value span => exact balanced.push (.print span) rfl rfl rfl
  | var name initializer span =>
      cases initializer with
      | none => exact balanced.moved (World.samePlace_define world name.text .nil)
      | some initializer => exact balanced.push (.declare name) rfl rfl rfl
  | block body span => exact balanced_inEnvironment balanced world.scope #[] body
  | conditional condition thenBranch elseBranch span =>
      exact balanced.push (.branch thenBranch elseBranch) rfl rfl rfl
  | loop condition body increment span =>
      exact balanced.push (.condition ⟨condition, body, increment⟩) rfl rfl rfl
  | function declaration span =>
      have made : World.SamePlace world (world.makeFunction declaration world.scope false).2 :=
        ⟨rfl, rfl, rfl⟩
      exact balanced.moved (made.trans (World.samePlace_define _ declaration.name.text _))
  | «return» value span =>
      cases value with
      | none => exact balanced
      | some value => exact balanced.push .return rfl rfl rfl
  | «class» name superclass methods span =>
      exact balanced_executeClass balanced name superclass methods
  | «break» span => exact balanced
  | «continue» span => exact balanced

theorem balanced_nextArgument {stack : Stack .value} (balanced : stack.Balanced start world)
    (callee : Value) (before : List Value) (others : List Expr) (span : Span) :
    (nextArgument world callee before others span stack).Balanced start := by
  cases others with
  | nil => exact balanced_callValue balanced callee before.reverse span
  | cons first rest => exact balanced.push (.argument callee before rest span) rfl rfl rfl

theorem balanced_testLoop {stack : Stack .flow} (balanced : stack.Balanced start world)
    (loop : Loop) : (testLoop world loop stack).Balanced start :=
  balanced.push (.condition loop) rfl rfl rfl

theorem balanced_giveValue (found : Value) {outcome : Awaited} {frame : Frame .value outcome}
    {stack : Stack outcome} (balanced : (Stack.push frame stack).Balanced start world) :
    (giveValue world found frame stack).Balanced start := by
  cases frame with
  | assign target =>
      have popped := balanced.pop rfl rfl
      simp only [giveValue]
      split
      · exact popped
      · exact popped.moved (World.samePlace_assign world target found)
  | unary operator span => exact balanced_ofOperation (balanced.pop rfl rfl) span _
  | leftOperand operator right span =>
      exact (balanced.pop rfl rfl).push (.rightOperand operator found span) rfl rfl rfl
  | rightOperand operator left span => exact balanced_ofOperation (balanced.pop rfl rfl) span _
  | logical operator right =>
      simp only [giveValue]
      split <;> exact balanced.pop rfl rfl
  | callee arguments span =>
      exact balanced_nextArgument (balanced.pop rfl rfl) found [] arguments span
  | argument callee before others span =>
      exact balanced_nextArgument (balanced.pop rfl rfl) callee (found :: before) others span
  | property name =>
      cases found with
      | «instance» object => exact balanced_property (balanced.pop rfl rfl) object name
      | _ => exact balanced.pop rfl rfl
  | fieldObject name value =>
      cases found with
      | «instance» object =>
          exact (balanced.pop rfl rfl).push (.fieldValue object name) rfl rfl rfl
      | _ => exact balanced.pop rfl rfl
  | fieldValue object name => exact (balanced.pop rfl rfl).moved ⟨rfl, rfl, rfl⟩
  | discard => exact balanced.pop rfl rfl
  | print span =>
      simp only [giveValue]
      split
      · exact balanced.pop rfl rfl
      · exact (balanced.pop rfl rfl).moved ⟨rfl, rfl, rfl⟩
  | declare name =>
      exact (balanced.pop rfl rfl).moved (World.samePlace_define world name.text found)
  | branch thenBranch elseBranch =>
      simp only [giveValue]
      split
      · exact balanced.pop rfl rfl
      · split <;> exact balanced.pop rfl rfl
  | condition loop =>
      simp only [giveValue]
      split
      · exact (balanced.pop rfl rfl).push (.round loop) rfl rfl rfl
      · exact balanced.pop rfl rfl
  | increment loop => exact balanced_testLoop (balanced.pop rfl rfl) loop
  | «return» => exact balanced.pop rfl rfl
  | construct object => exact balanced.pop rfl rfl
  | call => exact balanced.popCall

theorem balanced_endBody {stack : Stack .value} (balanced : stack.Balanced start world)
    (function : Function) (span : Span) (flow : Flow) :
    (endBody world function span flow stack).Balanced start := by
  simp only [endBody]
  split
  · split <;> exact balanced
  · split <;> exact balanced

theorem balanced_giveFlow (flow : Flow) {outcome : Awaited} {frame : Frame .flow outcome}
    {stack : Stack outcome} (balanced : (Stack.push frame stack).Balanced start world) :
    (giveFlow world flow frame stack).Balanced start := by
  cases frame with
  | round loop =>
      have popped := balanced.pop rfl rfl
      simp only [giveFlow]
      split
      · exact popped
      · exact popped
      · split
        · exact popped.push (.increment loop) rfl rfl rfl
        · exact balanced_testLoop popped loop
  | sequence others =>
      have popped := balanced.pop rfl rfl
      simp only [giveFlow]
      split
      · exact balanced_statements popped others
      · exact popped
  | leave previous => exact balanced.popLeave
  | body function span => exact balanced_endBody (balanced.pop rfl rfl) function span flow

/-- A fault on its way out restores what the frame would have restored. -/
theorem balanced_unwind {awaited outcome : Awaited} {frame : Frame awaited outcome}
    {stack : Stack outcome} (balanced : (Stack.push frame stack).Balanced start world) :
    stack.Balanced start (unwind world frame) := by
  cases frame with
  | leave previous => exact balanced.popLeave
  | call => exact balanced.popCall
  | _ => exact balanced.pop rfl rfl

theorem Balanced.next {machine : Machine} (balanced : machine.Balanced start) :
    machine.next.Balanced start := by
  cases machine with
  | evaluate world expr stack => exact balanced_beginExpr balanced expr
  | execute world stmt stack => exact balanced_beginStmt balanced stmt
  | answer world found stack =>
      cases stack with
      | empty => exact balanced
      | push frame rest => exact balanced_giveValue found balanced
  | finish world flow stack =>
      cases stack with
      | empty => exact balanced
      | push frame rest => exact balanced_giveFlow flow balanced
  | raise world fault stack =>
      cases stack with
      | empty => exact balanced
      | push frame rest => exact balanced_unwind balanced

/-- What one step keeps, a run keeps. -/
theorem Balanced.run {machine : Machine} (balanced : machine.Balanced start) (steps : Nat) :
    (machine.run steps).Balanced start := by
  induction steps generalizing machine with
  | zero => exact balanced
  | succ steps inductionHypothesis =>
      simp only [Machine.run]
      split
      · exact balanced
      · exact inductionHypothesis balanced.next

end Machine

end Lox
