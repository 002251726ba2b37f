import Lox.Machine.Step
import Lox.Proofs.Running.Balance
import Lox.Proofs.Spelling.World

/-!
Contract: a run does not look at the spelling.

An edition of a machine has everything in it in another spelling. One step of the edition is the
edition of the step: places are carried along, to be shown in a fault, and names of local variables
are carried along for nothing. Whether the name of a `var` is that of a local variable depends on
whether there is an environment where the statement is executed, which for the statements that wait
in the stack is the one that the frames in front of them restore.

The natives of the edition must answer alike, and so not look at the spelling of their arguments
either.

Main statement: `Machine.next_respelled`.

Owns: respelled flows, frames, stacks and machines, and steps of editions. Does not own: whole runs.
-/

set_option autoImplicit false

namespace Lox

/-- What the other native answers to the respelled arguments is the answer of this one
respelled. -/
def Operation.Answers (spelling : Spelling) (operation other : Operation) : Prop :=
  ∀ (moment : Nat) (arguments : List Value),
    other.answer moment (arguments.map (Value.respelled spelling)) =
      (operation.answer moment arguments).map (Value.respelled spelling)

/-- The natives of the edition answer as those of the world. -/
def World.Admits (edition : Edition) (world : World) : Prop :=
  ∀ operation ∈ world.natives, operation.Answers edition (edition.recast operation)

/-! ## Respelled machines -/

/-- The flow with its value respelled. -/
def Flow.respelled (spelling : Spelling) : Flow → Flow
  | .normal => .normal
  | .break => .break
  | .continue => .continue
  | .return value => .return (value.respelled spelling)

/-- The loop in another spelling. -/
def Loop.respelled (spelling : Spelling) (inside : Bool) (loop : Loop) : Loop :=
  ⟨loop.condition.respelled spelling, loop.body.respelled spelling inside,
    respelledOptionalExpr spelling loop.increment⟩

/-- The frame with all its trees and values respelled. -/
def Frame.respelled (spelling : Spelling) (inside : Bool) {awaited outcome : Awaited} :
    Frame awaited outcome → Frame awaited outcome
  | .assign target => .assign (target.respelled spelling)
  | .unary operator span => .unary operator (spelling.place span)
  | .leftOperand operator right span =>
      .leftOperand operator (right.respelled spelling) (spelling.place span)
  | .rightOperand operator left span =>
      .rightOperand operator (left.respelled spelling) (spelling.place span)
  | .logical operator right => .logical operator (right.respelled spelling)
  | .callee arguments span => .callee (respelledExprs spelling arguments) (spelling.place span)
  | .argument called before others span =>
      .argument (called.respelled spelling) (before.map (Value.respelled spelling))
        (respelledExprs spelling others) (spelling.place span)
  | .property name => .property (name.moved spelling.place)
  | .fieldObject name value => .fieldObject (name.moved spelling.place) (value.respelled spelling)
  | .fieldValue object name => .fieldValue (object.respelled spelling) (name.moved spelling.place)
  | .discard => .discard
  | .print span => .print (spelling.place span)
  | .declare name => .declare (name.respelled spelling inside)
  | .branch thenBranch elseBranch =>
      .branch (thenBranch.respelled spelling inside)
          (respelledOptionalStmt spelling inside elseBranch)
  | .condition loop => .condition (loop.respelled spelling inside)
  | .round loop => .round (loop.respelled spelling inside)
  | .increment loop => .increment (loop.respelled spelling inside)
  | .return => .return
  | .sequence others => .sequence (respelledStmts spelling inside others)
  | .leave previous => .leave previous
  | .body function span => .body (function.respelled spelling) (spelling.place span)
  | .construct object => .construct (object.respelled spelling)
  | .call => .call

/-- The stack with all its frames respelled, if this is the environment in front of it. -/
def Stack.respelled (spelling : Spelling) :
    {awaited : Awaited} → Option EnvironmentRef → Stack awaited → Stack awaited
  | _, _, .empty => .empty
  | _, scope, .push frame rest =>
      .push (frame.respelled spelling scope.isSome)
        (rest.respelled spelling (frame.scopeBehind scope))

namespace Machine

/-- The machine with all that is in it respelled. -/
def respelled (edition : Edition) : Machine → Machine
  | .evaluate world expr stack =>
      .evaluate (world.respelled edition) (expr.respelled edition)
        (stack.respelled edition world.scope)
  | .execute world stmt stack =>
      .execute (world.respelled edition) (stmt.respelled edition world.scope.isSome)
        (stack.respelled edition world.scope)
  | .answer world found stack =>
      .answer (world.respelled edition) (found.respelled edition)
        (stack.respelled edition world.scope)
  | .finish world flow stack =>
      .finish (world.respelled edition) (flow.respelled edition)
        (stack.respelled edition world.scope)
  | .raise world fault stack =>
      .raise (world.respelled edition) (fault.moved edition.place)
        (stack.respelled edition world.scope)

/-! ## Steps -/

section Steps

variable (edition : Edition) (world : World)

/-- A variable is declared where it was begun. -/
theorem respelled_declare (name : Name) (value : Value) (stack : Stack .flow) :
    finish ((world.respelled edition).define (name.respelled edition world.scope.isSome).text
        (value.respelled edition)) .normal (stack.respelled edition world.scope) =
      (finish (world.define name.text value) .normal stack).respelled edition := by
  simp only [World.respelled_define, respelled, (world.samePlace_define name.text value).scope,
    Flow.respelled]

/-- A function or class is declared where it was begun. -/
theorem respelled_declareKept {made : World} (same : World.SamePlace world made) (name : String)
    (value : Value) (stack : Stack .flow) :
    finish ((made.respelled edition).define name (value.respelled edition)) .normal
        (stack.respelled edition world.scope) =
      (finish (made.define name value) .normal stack).respelled edition := by
  have defined := same.trans (made.samePlace_define name value)
  simp only [World.respelled_define_kept, respelled, defined.scope, Flow.respelled]

theorem respelled_ofResult (stack : Stack .value) (result : Except Fault Value) :
    ofResult (world.respelled edition) (stack.respelled edition world.scope)
        (respelledResult edition result) =
      (ofResult world stack result).respelled edition := by
  cases result <;> rfl

theorem respelled_ofOperation (span : Span) (stack : Stack .value)
    (result : Except Fault.Violation Value) :
    ofOperation (world.respelled edition) (edition.place span) (stack.respelled edition world.scope)
        (result.map (Value.respelled edition)) =
      (ofOperation world span stack result).respelled edition := by
  cases result <;> rfl

theorem respelled_statements (stack : Stack .flow) (body : List Stmt) :
    statements (world.respelled edition) (stack.respelled edition world.scope)
        (respelledStmts edition world.scope.isSome body) =
      (statements world stack body).respelled edition := by
  cases body <;> rfl

theorem respelled_inEnvironment (enclosing : Option EnvironmentRef) (values : Array Value)
    (body : List Stmt) (stack : Stack .flow) :
    inEnvironment (world.respelled edition) enclosing (values.map (Value.respelled edition))
        (respelledStmts edition true body) (stack.respelled edition world.scope) =
      (inEnvironment world enclosing values body stack).respelled edition := by
  simp only [inEnvironment, World.respelled_enter]
  exact respelled_statements edition (world.enter enclosing values)
    (.push (.leave world.scope) stack) body

/-! ## Calls -/

theorem respelled_enterFunction (function : Function) (arguments : List Value) (span : Span)
    (stack : Stack .value) :
    enterFunction (world.respelled edition) (function.respelled edition)
        (arguments.map (Value.respelled edition)) (edition.place span)
            (stack.respelled edition world.scope) =
      (enterFunction world function arguments span stack).respelled edition := by
  have inside := respelled_inEnvironment edition world function.closure arguments.toArray
    function.declaration.body (.push (.body function span) stack)
  simp only [enterFunction, Function.respelled, respelledFunction_body]
  rw [List.map_toArray] at inside
  exact inside

theorem respelled_construct (origin : Class) (arguments : List Value) (span : Span)
    (stack : Stack .value) :
    construct (world.respelled edition) (origin.respelled edition)
        (arguments.map (Value.respelled edition))
        (edition.place span) (stack.respelled edition world.scope) =
      (construct world origin arguments span stack).respelled edition := by
  simp only [construct, World.respelled_makeInstance, Class.initializer?_respelled]
  cases origin.initializer? with
  | none => rfl
  | some initializer =>
      simp only [Option.map_some, World.respelled_bindMethod]
      exact respelled_enterFunction edition _ _ arguments span
        (.push (.construct (world.makeInstance origin).1) stack)

variable {world}

theorem respelled_callNative (admits : world.Admits edition) (native : Native)
    (arguments : List Value)
    (span : Span) (stack : Stack .value) :
    callNative (world.respelled edition) native (arguments.map (Value.respelled edition))
        (edition.place span)
        (stack.respelled edition world.scope) =
      (callNative world native arguments span stack).respelled edition := by
  have natives : (world.respelled edition).natives[native.number]? =
      world.natives[native.number]?.map edition.recast := Array.getElem?_map
  simp only [callNative, natives]
  cases present : world.natives[native.number]? with
  | none => rfl
  | some operation =>
      have answers := admits operation (Array.mem_of_getElem? present)
      simp only [Option.map_some]
      have sameMoment : (world.respelled edition).moment = world.moment := rfl
      simp only [sameMoment, answers world.moment arguments]
      cases operation.answer world.moment arguments <;> rfl

theorem respelled_invoke (admits : world.Admits edition) (callable : Callable)
    (arguments : List Value)
    (span : Span) (stack : Stack .value) :
    invoke (world.respelled edition) (callable.respelled edition)
        (arguments.map (Value.respelled edition))
        (edition.place span) (stack.respelled edition world.scope) =
      (invoke world callable arguments span stack).respelled edition := by
  have sameLimit : (world.respelled edition).callLimit = world.callLimit := rfl
  have sameDepth : (world.respelled edition).callDepth = world.callDepth := rfl
  simp only [invoke, sameLimit, sameDepth]
  split
  · rfl
  · have deeper : World.Admits edition { world with callDepth := world.callDepth + 1 } := admits
    cases callable with
    | function function =>
        exact respelled_enterFunction edition { world with callDepth := world.callDepth + 1 }
          function arguments span (.push .call stack)
    | native native =>
        exact respelled_callNative edition deeper native arguments span (.push .call stack)
    | «class» origin =>
        exact respelled_construct edition { world with callDepth := world.callDepth + 1 }
          origin arguments span (.push .call stack)

theorem respelled_callValue (admits : world.Admits edition) (callee : Value)
    (arguments : List Value)
    (span : Span) (stack : Stack .value) :
    callValue (world.respelled edition) (callee.respelled edition)
        (arguments.map (Value.respelled edition))
        (edition.place span) (stack.respelled edition world.scope) =
      (callValue world callee arguments span stack).respelled edition := by
  simp only [callValue, Value.callable?_respelled]
  cases callee.callable? with
  | none => rfl
  | some callable =>
      simp only [Option.map_some, List.length_map, Callable.respelled_arity]
      split
      · exact respelled_invoke edition admits callable arguments span stack
      · rfl

/-! ## Properties -/

theorem respelled_methodOf (admits : world.Admits edition) (origin : Class) (receiver : Instance)
    (name : Name) (stack : Stack .value) :
    methodOf (world.respelled edition) (origin.respelled edition) (receiver.respelled edition)
        (name.moved edition.place) (stack.respelled edition world.scope) =
      (methodOf world origin receiver name stack).respelled edition := by
  simp only [methodOf, Name.moved_text, Class.method?_respelled]
  cases origin.method? name.text with
  | none => rfl
  | some method =>
      have kept (made : Function) : (made.respelled edition).declaration.isGetter =
          made.declaration.isGetter := respelledFunction_isGetter edition made.declaration
      have bound : World.Admits edition (world.bindMethod method receiver).2 := admits
      simp only [Option.map_some, boundMethod, World.respelled_bindMethod, kept]
      split
      · exact respelled_invoke edition bound (.function (world.bindMethod method receiver).1) []
          name.span stack
      · rfl

theorem respelled_property (admits : world.Admits edition) (object : Instance) (name : Name)
    (stack : Stack .value) :
    property (world.respelled edition) (object.respelled edition) (name.moved edition.place)
        (stack.respelled edition world.scope) =
      (property world object name stack).respelled edition := by
  simp only [property, Name.moved_text, World.respelled_field?]
  cases world.field? object name.text with
  | none => exact respelled_methodOf edition admits object.origin object name stack
  | some found => rfl

theorem respelled_superMethod (admits : world.Admits edition) (address : Option Address)
    (name : Name)
    (span : Span) (stack : Stack .value) :
    superMethod (world.respelled edition) address (name.moved edition.place) (edition.place span)
        (stack.respelled edition world.scope) =
      (superMethod world address name span stack).respelled edition := by
  match address with
  | none => rfl
  | some ⟨0, _⟩ => rfl
  | some ⟨depth + 1, slot⟩ =>
      simp only [superMethod, World.respelled_readLocal]
      cases world.readLocal ⟨depth + 1, slot⟩ span with
      | error fault => rfl
      | ok found =>
          cases found with
          | «class» superclass =>
              simp only [respelledResult, Value.respelled]
              cases world.readLocal ⟨depth, 0⟩ span with
              | error fault => rfl
              | ok receiver =>
                  cases receiver with
                  | «instance» object =>
                      exact respelled_methodOf edition admits superclass object name stack
                  | _ => rfl
          | _ => rfl

/-! ## Expressions and statements -/

theorem respelled_beginExpr (admits : world.Admits edition) (stack : Stack .value) (expr : Expr) :
    beginExpr (world.respelled edition) (stack.respelled edition world.scope)
        (expr.respelled edition) =
      (beginExpr world stack expr).respelled edition := by
  cases expr with
  | literal value span =>
      simp only [Expr.respelled, beginExpr, respelled, Literal.respelled_value]
  | «variable» reference =>
      simp only [Expr.respelled, beginExpr, World.respelled_readVariable]
      exact respelled_ofResult edition world stack _
  | this address span =>
      cases address with
      | none => rfl
      | some address =>
          simp only [Expr.respelled, beginExpr, World.respelled_readLocal]
          exact respelled_ofResult edition world stack _
  | super address name span => exact respelled_superMethod edition admits address name span stack
  | lambda function =>
      simp only [Expr.respelled, beginExpr, World.respelled_makeFunction]
      rfl
  | _ => rfl

variable (world)

theorem respelled_declareClass (name : Name) (superclass : Option Class)
    (closure : Option EnvironmentRef) (methods : List FunctionDeclaration) (stack : Stack .flow) :
    declareClass (world.respelled edition) (name.moved edition.place)
        (superclass.map (Class.respelled edition))
        closure (respelledFunctions edition methods) (stack.respelled edition world.scope) =
      (declareClass world name superclass closure methods stack).respelled edition := by
  simp only [declareClass, Name.moved_text, World.respelled_makeClass]
  exact respelled_declareKept edition world
    (world.samePlace_makeClass name.text superclass closure methods) name.text
    (.class (world.makeClass name.text superclass closure methods).1) stack

theorem respelled_executeClass (name : Name) (superclass : Option Reference)
    (methods : List FunctionDeclaration) (stack : Stack .flow) :
    executeClass (world.respelled edition) (name.moved edition.place)
        (superclass.map (Reference.respelled edition))
        (respelledFunctions edition methods) (stack.respelled edition world.scope) =
      (executeClass world name superclass methods stack).respelled edition := by
  cases superclass with
  | none => exact respelled_declareClass edition world name none world.scope methods stack
  | some reference =>
      simp only [Option.map_some, executeClass, World.respelled_readVariable]
      cases world.readVariable reference with
      | error fault => rfl
      | ok found =>
          cases found with
          | «class» inherited =>
              have allocated := world.respelled_allocate edition world.scope #[.class inherited]
              have values : #[Value.class inherited].map (Value.respelled edition) =
                  #[.class (inherited.respelled edition)] := by
                simp [Value.respelled]
              rw [values] at allocated
              have sameScope : (world.respelled edition).scope = world.scope := rfl
              simp only [respelledResult, Value.respelled, sameScope, allocated]
              exact respelled_declareClass edition _ name (some inherited) _ methods stack
          | _ => rfl

theorem respelled_beginStmt (stack : Stack .flow) (stmt : Stmt) :
    beginStmt (world.respelled edition) (stack.respelled edition world.scope)
        (stmt.respelled edition world.scope.isSome) =
      (beginStmt world stack stmt).respelled edition := by
  cases stmt with
  | var name initializer span =>
      cases initializer with
      | none => exact respelled_declare edition world name .nil stack
      | some value => rfl
  | block body span =>
      have inside := respelled_inEnvironment edition world world.scope #[] body stack
      rw [Array.map_empty] at inside
      exact inside
  | function declaration span =>
      have made : World.SamePlace world (world.makeFunction declaration world.scope false).2 :=
        ⟨rfl, rfl, rfl⟩
      have sameScope : (world.respelled edition).scope = world.scope := rfl
      simp only [Stmt.respelled, beginStmt, sameScope, World.respelled_makeFunction,
        respelledFunction_name, Name.moved_text]
      exact respelled_declareKept edition world made declaration.name.text
        (.function (world.makeFunction declaration world.scope false).1) stack
  | «return» value span => cases value <;> rfl
  | «class» name superclass methods span =>
      exact respelled_executeClass edition world name superclass methods stack
  | _ => rfl

/-! ## Frames -/

variable {world}

theorem respelled_nextArgument (admits : world.Admits edition) (callee : Value) (given : List Value)
    (others : List Expr) (span : Span) (stack : Stack .value) :
    nextArgument (world.respelled edition) (callee.respelled edition)
        (given.map (Value.respelled edition))
        (respelledExprs edition others) (edition.place span) (stack.respelled edition world.scope) =
      (nextArgument world callee given others span stack).respelled edition := by
  cases others with
  | nil =>
      have called := respelled_callValue edition admits callee given.reverse span stack
      rwa [List.map_reverse] at called
  | cons first rest => rfl

theorem respelled_giveValue (admits : world.Admits edition) (found : Value) {outcome : Awaited}
    (frame : Frame .value outcome) (stack : Stack outcome) :
    giveValue (world.respelled edition) (found.respelled edition)
        (frame.respelled edition world.scope.isSome)
        (stack.respelled edition (frame.scopeBehind world.scope)) =
      (giveValue world found frame stack).respelled edition := by
  cases frame with
  | assign target =>
      simp only [Frame.respelled, giveValue, World.respelled_assignmentFault?,
          World.respelled_assign]
      cases world.assignmentFault? target with
      | some fault => rfl
      | none =>
          have same := (world.samePlace_assign target found).scope
          simp only [Option.map_none, respelled, same]
          rfl
  | unary operator span =>
      simp only [Frame.respelled, giveValue, UnaryOperator.apply_respelled]
      exact respelled_ofOperation edition world span stack _
  | rightOperand operator left span =>
      simp only [Frame.respelled, giveValue, BinaryOperator.apply_respelled]
      exact respelled_ofOperation edition world span stack _
  | logical operator right =>
      simp only [Frame.respelled, giveValue, LogicalOperator.isDecidedBy_respelled]
      split <;> rfl
  | callee arguments span =>
      exact respelled_nextArgument edition admits found [] arguments span stack
  | argument called given others span =>
      exact respelled_nextArgument edition admits called (found :: given) others span stack
  | property name =>
      cases found with
      | «instance» object => exact respelled_property edition admits object name stack
      | _ => rfl
  | fieldObject name value => cases found <;> rfl
  | fieldValue object name =>
      have set := world.respelled_setField edition object name.text found
      simp only [Frame.respelled, giveValue, Name.moved_text, respelled, set]
      rfl
  | print span =>
      simp only [Frame.respelled, giveValue, World.respelled_printFault?, Value.respelled_display,
        World.respelled_print]
      cases world.printFault? span <;> rfl
  | declare name => exact respelled_declare edition world name found stack
  | branch thenBranch elseBranch =>
      simp only [Frame.respelled, giveValue, Value.respelled_isTruthy]
      split
      · rfl
      · cases elseBranch <;> rfl
  | condition loop =>
      simp only [Frame.respelled, giveValue, Value.respelled_isTruthy]
      split <;> rfl
  | _ => rfl

variable (world)

theorem respelled_endBody (function : Function) (span : Span) (flow : Flow) (stack : Stack .value) :
    endBody (world.respelled edition) (function.respelled edition) (edition.place span)
        (flow.respelled edition)
        (stack.respelled edition world.scope) =
      (endBody world function span flow stack).respelled edition := by
  have sameSort : (function.respelled edition).isInitializer = function.isInitializer := rfl
  have receiver : ((function.respelled edition).closure.bind fun ref =>
      (world.respelled edition).forest.getAt? ref 0 0) =
        (function.closure.bind fun ref => world.forest.getAt? ref 0 0).map
            (Value.respelled edition) := by
    cases closure : function.closure <;> simp [Function.respelled, World.respelled, closure]
  simp only [endBody, sameSort, receiver]
  split
  · cases function.closure.bind fun ref => world.forest.getAt? ref 0 0 <;> rfl
  · cases flow <;> rfl

theorem respelled_giveFlow (flow : Flow) {outcome : Awaited} (frame : Frame .flow outcome)
    (stack : Stack outcome) :
    giveFlow (world.respelled edition) (flow.respelled edition)
        (frame.respelled edition world.scope.isSome)
        (stack.respelled edition (frame.scopeBehind world.scope)) =
      (giveFlow world flow frame stack).respelled edition := by
  cases frame with
  | round loop =>
      obtain ⟨condition, body, increment⟩ := loop
      cases flow <;> cases increment <;> rfl
  | sequence others =>
      cases flow with
      | normal => exact respelled_statements edition world stack others
      | _ => rfl
  | leave previous => rfl
  | body function span => exact respelled_endBody edition world function span flow stack

end Steps

/-- A step of the respelled machine is the respelled step. -/
theorem next_respelled (edition : Edition) {machine : Machine}
    (admits : machine.world.Admits edition) :
    (machine.respelled edition).next = machine.next.respelled edition := by
  cases machine with
  | evaluate world expr stack => exact respelled_beginExpr edition admits stack expr
  | execute world stmt stack => exact respelled_beginStmt edition world stack stmt
  | answer world found stack =>
      cases stack with
      | empty => rfl
      | push frame rest => exact respelled_giveValue edition admits found frame rest
  | finish world flow stack =>
      cases stack with
      | empty => rfl
      | push frame rest => exact respelled_giveFlow edition world flow frame rest
  | raise world fault stack =>
      cases stack with
      | empty => rfl
      | push frame rest => cases frame <;> rfl

theorem isDone_respelled (edition : Edition) (machine : Machine) :
    (machine.respelled edition).isDone = machine.isDone := by
  cases machine with
  | evaluate => rfl
  | execute => rfl
  | answer world found stack => cases stack <;> rfl
  | finish world flow stack => cases stack <;> rfl
  | raise world fault stack => cases stack <;> rfl

end Machine

end Lox
