import Lox.Machine.Operators
import Lox.Machine.Stack
import Lox.World

/-!
Contract: one step of a run.

A machine is a world together with what happens next in it: an expression is
evaluated, a statement is executed, or a value, a flow or a fault meets the top
of the stack. `Machine.next` is the whole meaning of the language: every step is found
from the machine alone, and a machine that is done stays as it is.

A fault takes frames off the stack one by one; a frame that changed the
environment or the call depth restores it on the way.

Owns: the order of evaluation, calls, method binding, loops and unwinding.
-/

namespace Lox

/-- A world and what happens next in it. -/
inductive Machine where
  | evaluate (world : World) (expr : Expr) (stack : Stack .value)
  | execute (world : World) (stmt : Stmt) (stack : Stack .flow)
  | answer (world : World) (value : Value) (stack : Stack .value)
  | finish (world : World) (flow : Flow) (stack : Stack .flow)
  | raise {awaited : Awaited} (world : World) (fault : Fault) (stack : Stack awaited)

namespace Machine

/-- Goes on with a value, or with the fault that stands in its place. -/
def ofResult (world : World) (stack : Stack .value) : Except Fault Value → Machine
  | .ok result => .answer world result stack
  | .error failure => .raise world failure stack

/-- Goes on with the value of an operator at a span, or with its violation. -/
def ofOperation (world : World) (span : Span) (stack : Stack .value) :
    Except Fault.Violation Value → Machine
  | .ok result => .answer world result stack
  | .error violation => .raise world (.ofViolation violation span) stack

/-- Executes statements one after the other. -/
def statements (world : World) (stack : Stack .flow) : List Stmt → Machine
  | [] => .finish world .normal stack
  | first :: others => .execute world first (.push (.sequence others) stack)

/-- Executes statements in a new environment inside `enclosing` that holds these
values, and then returns to the present one. -/
def inEnvironment (world : World) (enclosing : Option EnvironmentRef) (values : Array Value)
    (body : List Stmt) (stack : Stack .flow) : Machine :=
  let previous := world.scope
  statements (world.enter enclosing values) (.push (.leave previous) stack) body

/-! ## Calls -/

/-- Runs the body of a function, with its parameters in the first slots. -/
def enterFunction (world : World) (function : Function) (arguments : List Value) (span : Span)
    (stack : Stack .value) : Machine :=
  inEnvironment world function.closure arguments.toArray function.declaration.body
    (.push (.body function span) stack)

/-- Makes an instance, and runs its initializer if there is one. -/
def construct (world : World) (origin : Class) (arguments : List Value) (span : Span)
    (stack : Stack .value) : Machine :=
  let (object, world) := world.makeInstance origin
  match origin.initializer? with
  | none => .answer world (.instance object) stack
  | some initializer =>
      let (bound, world) := world.bindMethod initializer object
      enterFunction world bound arguments span (.push (.construct object) stack)

/-- Runs a native. -/
def callNative (world : World) (native : Native) (arguments : List Value) (span : Span)
    (stack : Stack .value) : Machine :=
  match world.natives[native.number]? with
  | none => .raise world (.ofBreach (.unknownNative native.number) span) stack
  | some operation =>
      match operation.answer world.moment arguments with
      | .ok result => .answer world.tick result stack
      | .error message => .raise world.tick (.ofViolation (.refusal message) span) stack

/-- Starts a callable. -/
def start (world : World) (callable : Callable) (arguments : List Value) (span : Span)
    (stack : Stack .value) : Machine :=
  match callable with
  | .function function => enterFunction world function arguments span stack
  | .class origin => construct world origin arguments span stack
  | .native native => callNative world native arguments span stack

/-- Starts a callable one call deeper, unless the limit is reached. -/
def invoke (world : World) (callable : Callable) (arguments : List Value) (span : Span)
    (stack : Stack .value) : Machine :=
  if world.callLimit ≤ world.callDepth then .raise world ⟨.stackOverflow, span⟩ stack
  else
    start { world with callDepth := world.callDepth + 1 } callable arguments span
      (.push .call stack)

/-- Calls a value, which must be callable and take so many arguments. -/
def callValue (world : World) (callee : Value) (arguments : List Value) (span : Span)
    (stack : Stack .value) : Machine :=
  match callee.callable? with
  | none => .raise world (.ofViolation .notCallable span) stack
  | some callable =>
      if arguments.length = callable.arity then invoke world callable arguments span stack
      else
        .raise world (.ofViolation (.argumentCount callable.arity arguments.length) span) stack

/-! ## Properties -/

/-- Binds a method to its receiver; a getter runs at once. -/
def boundMethod (world : World) (method : Function) (receiver : Instance) (span : Span)
    (stack : Stack .value) : Machine :=
  let (bound, world) := world.bindMethod method receiver
  if bound.declaration.isGetter then invoke world (.function bound) [] span stack
  else .answer world (.function bound) stack

/-- Looks up a method from a class on and binds it. -/
def methodOf (world : World) (origin : Class) (receiver : Instance) (name : Name)
    (stack : Stack .value) : Machine :=
  match origin.method? name.text with
  | some method => boundMethod world method receiver name.span stack
  | none => .raise world (.ofViolation (.undefinedProperty name.text) name.span) stack

/-- Reads a property: a field, or else a method of the instance's class. -/
def property (world : World) (object : Instance) (name : Name) (stack : Stack .value) :
    Machine :=
  match world.field? object name.text with
  | some found => .answer world found stack
  | none => methodOf world object.origin object name stack

/-- Looks up a method from the superclass on. The environment that holds `this`
stands right inside the one that holds `super`. -/
def superMethod (world : World) (address : Option Address) (name : Name) (span : Span)
    (stack : Stack .value) : Machine :=
  match address with
  | none => .raise world (.ofBreach .unboundSuper span) stack
  | some ⟨0, _⟩ => .raise world (.ofBreach .superWithoutThis span) stack
  | some ⟨depth + 1, slot⟩ =>
      match world.readLocal ⟨depth + 1, slot⟩ span with
      | .error failure => .raise world failure stack
      | .ok (.class superclass) =>
          match world.readLocal ⟨depth, 0⟩ span with
          | .error failure => .raise world failure stack
          | .ok (.instance receiver) => methodOf world superclass receiver name stack
          | .ok _ => .raise world (.ofBreach .thisNotInstance span) stack
      | .ok _ => .raise world (.ofBreach .superNotClass span) stack

/-! ## Expressions and statements -/

/-- Begins the evaluation of an expression. -/
def beginExpr (world : World) (stack : Stack .value) : Expr → Machine
  | .literal value _ => .answer world value.value stack
  | .grouping inner _ => .evaluate world inner stack
  | .variable reference => ofResult world stack (world.readVariable reference)
  | .assign target value _ => .evaluate world value (.push (.assign target) stack)
  | .unary operator operand span => .evaluate world operand (.push (.unary operator span) stack)
  | .binary operator left right span =>
      .evaluate world left (.push (.leftOperand operator right span) stack)
  | .logical operator left right _ =>
      .evaluate world left (.push (.logical operator right) stack)
  | .call callee arguments span => .evaluate world callee (.push (.callee arguments span) stack)
  | .get object name => .evaluate world object (.push (.property name) stack)
  | .set object name value _ => .evaluate world object (.push (.fieldObject name value) stack)
  | .this none span => .raise world (.ofBreach .unboundThis span) stack
  | .this (some address) span => ofResult world stack (world.readLocal address span)
  | .super address method span => superMethod world address method span stack
  | .lambda function =>
      let (made, world) := world.makeFunction function world.scope false
      .answer world (.function made) stack

/-- Declares a class whose methods live inside an environment. -/
def declareClass (world : World) (name : Name) (superclass : Option Class)
    (closure : Option EnvironmentRef) (methods : List FunctionDeclaration)
    (stack : Stack .flow) : Machine :=
  let (made, world) := world.makeClass name.text superclass closure methods
  .finish (world.define name.text (.class made)) .normal stack

/-- Executes the declaration of a class. The methods of a subclass live inside an
environment that holds `super`. -/
def executeClass (world : World) (name : Name) (superclass : Option Reference)
    (methods : List FunctionDeclaration) (stack : Stack .flow) : Machine :=
  match superclass with
  | none => declareClass world name none world.scope methods stack
  | some reference =>
      match world.readVariable reference with
      | .error failure => .raise world failure stack
      | .ok (.class inherited) =>
          let (ref, world) := world.allocate world.scope #[.class inherited]
          declareClass world name (some inherited) (some ref) methods stack
      | .ok _ => .raise world (.ofViolation .superclassNotClass reference.name.span) stack

/-- Begins the execution of a statement. -/
def beginStmt (world : World) (stack : Stack .flow) : Stmt → Machine
  | .expression value _ => .evaluate world value (.push .discard stack)
  | .print value span => .evaluate world value (.push (.print span) stack)
  | .var name none _ => .finish (world.define name.text .nil) .normal stack
  | .var name (some initializer) _ =>
      .evaluate world initializer (.push (.declare name) stack)
  | .block body _ => inEnvironment world world.scope #[] body stack
  | .conditional condition thenBranch elseBranch _ =>
      .evaluate world condition (.push (.branch thenBranch elseBranch) stack)
  | .loop condition body increment _ =>
      .evaluate world condition (.push (.condition ⟨condition, body, increment⟩) stack)
  | .function declaration _ =>
      let (made, world) := world.makeFunction declaration world.scope false
      .finish (world.define declaration.name.text (.function made)) .normal stack
  | .return none _ => .finish world (.return .nil) stack
  | .return (some value) _ => .evaluate world value (.push .return stack)
  | .class name superclass methods _ => executeClass world name superclass methods stack
  | .break _ => .finish world .break stack
  | .continue _ => .finish world .continue stack

/-! ## Frames -/

/-- Tests the condition of a loop, again or for the first time. -/
def testLoop (world : World) (loop : Loop) (stack : Stack .flow) : Machine :=
  .evaluate world loop.condition (.push (.condition loop) stack)

/-- Evaluates the arguments that are left, and then calls. -/
def nextArgument (world : World) (callee : Value) (before : List Value) (others : List Expr)
    (span : Span) (stack : Stack .value) : Machine :=
  match others with
  | [] => callValue world callee before.reverse span stack
  | first :: rest => .evaluate world first (.push (.argument callee before rest span) stack)

/-- Hands a value to the frame that awaits it. -/
def giveValue (world : World) (found : Value) {outcome : Awaited}
    (frame : Frame .value outcome) (stack : Stack outcome) : Machine :=
  match frame, stack with
  | .assign target, stack =>
      match world.assignmentFault? target with
      | some failure => .raise world failure stack
      | none => .answer (world.assign target found) found stack
  | .unary operator span, stack => ofOperation world span stack (operator.apply found)
  | .leftOperand operator right span, stack =>
      .evaluate world right (.push (.rightOperand operator found span) stack)
  | .rightOperand operator left span, stack =>
      ofOperation world span stack (operator.apply left found)
  | .logical operator right, stack =>
      if operator.isDecidedBy found then .answer world found stack
      else .evaluate world right stack
  | .callee arguments span, stack => nextArgument world found [] arguments span stack
  | .argument callee before others span, stack =>
      nextArgument world callee (found :: before) others span stack
  | .property name, stack =>
      match found with
      | .instance object => property world object name stack
      | _ => .raise world (.ofViolation .propertyOfOther name.span) stack
  | .fieldObject name value, stack =>
      match found with
      | .instance object => .evaluate world value (.push (.fieldValue object name) stack)
      | _ => .raise world (.ofViolation .fieldOfOther name.span) stack
  | .fieldValue object name, stack => .answer (world.setField object name.text found) found stack
  | .discard, stack => .finish world .normal stack
  | .print span, stack =>
      match world.printFault? span with
      | some failure => .raise world failure stack
      | none => .finish (world.print found.display) .normal stack
  | .declare name, stack => .finish (world.define name.text found) .normal stack
  | .branch thenBranch elseBranch, stack =>
      if found.isTruthy then .execute world thenBranch stack
      else
        match elseBranch with
        | some stmt => .execute world stmt stack
        | none => .finish world .normal stack
  | .condition loop, stack =>
      if found.isTruthy then .execute world loop.body (.push (.round loop) stack)
      else .finish world .normal stack
  | .increment loop, stack => testLoop world loop stack
  | .return, stack => .finish world (.return found) stack
  | .construct object, stack => .answer world (.instance object) stack
  | .call, stack => .answer { world with callDepth := world.callDepth - 1 } found stack

/-- Ends the body of a function. An initializer ends with its instance, whatever
its body returns. -/
def endBody (world : World) (function : Function) (span : Span) (reached : Flow)
    (stack : Stack .value) : Machine :=
  if function.isInitializer then
    match function.closure.bind fun ref => world.forest.getAt? ref 0 0 with
    | some receiver => .answer world receiver stack
    | none => .raise world (.ofBreach .initializerWithoutInstance span) stack
  else
    match reached with
    | .return result => .answer world result stack
    | _ => .answer world .nil stack

/-- Hands a flow to the frame that awaits it. -/
def giveFlow (world : World) (reached : Flow) {outcome : Awaited}
    (frame : Frame .flow outcome) (stack : Stack outcome) : Machine :=
  match frame, stack with
  | .round loop, stack =>
      match reached with
      | .break => .finish world .normal stack
      | .return result => .finish world (.return result) stack
      | _ =>
          match loop.increment with
          | some increment => .evaluate world increment (.push (.increment loop) stack)
          | none => testLoop world loop stack
  | .sequence others, stack =>
      match reached with
      | .normal => statements world stack others
      | _ => .finish world reached stack
  | .leave previous, stack => .finish (world.leaveTo previous) reached stack
  | .body function span, stack => endBody world function span reached stack

/-- What a frame restores when a fault takes it off the stack. -/
def unwind (world : World) {awaited outcome : Awaited} : Frame awaited outcome → World
  | .leave previous => world.leaveTo previous
  | .call => { world with callDepth := world.callDepth - 1 }
  | _ => world

/-! ## Steps -/

/-- Whether a value, a flow or a fault has met the empty stack. -/
def isDone : Machine → Bool
  | .answer _ _ .empty => true
  | .finish _ _ .empty => true
  | .raise _ _ .empty => true
  | _ => false

/-- The next machine. A machine that is done stays as it is. -/
def next : Machine → Machine
  | .evaluate world expr stack => beginExpr world stack expr
  | .execute world stmt stack => beginStmt world stack stmt
  | .answer world found (.push frame stack) => giveValue world found frame stack
  | .finish world reached (.push frame stack) => giveFlow world reached frame stack
  | .raise world failure (.push frame stack) => .raise (unwind world frame) failure stack
  | machine => machine

/-- The machine after so many steps, or as soon as it is done. -/
def run : Nat → Machine → Machine
  | 0, machine => machine
  | steps + 1, machine => if machine.isDone then machine else run steps machine.next

theorem next_of_isDone {machine : Machine} (done : machine.isDone = true) :
    machine.next = machine := by
  unfold isDone at done
  split at done <;> simp_all [next]

theorem run_of_isDone {machine : Machine} (done : machine.isDone = true) (steps : Nat) :
    run steps machine = machine := by
  cases steps <;> simp [run, done]

/-- A run may be interrupted and taken up again. -/
theorem run_add (first second : Nat) (machine : Machine) :
    run (first + second) machine = run second (run first machine) := by
  induction first generalizing machine with
  | zero => simp [run]
  | succ first inductionHypothesis =>
      by_cases done : machine.isDone = true
      · simp [run_of_isDone done]
      · rw [Nat.add_right_comm]
        simp only [run, done]
        exact inductionHypothesis machine.next

/-- The world of a machine. -/
def world : Machine → World
  | .evaluate world _ _ => world
  | .execute world _ _ => world
  | .answer world _ _ => world
  | .finish world _ _ => world
  | .raise world _ _ => world

end Machine

end Lox
