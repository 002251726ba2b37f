import Lox.Proofs.Spelling.Step

/-!
Contract: a run does not look at places.

A machine is moved by moving everything in it. One step of the moved machine is the moved
step: places are carried along, to be shown in a fault, and decide nothing. Natives must
follow the move, and so not look at the places in their arguments either.

Main statement: `Machine.next_moved`.

Owns: moved flows, frames, stacks and machines, and steps of moved machines. Does not own:
whole runs.
-/

set_option autoImplicit false

namespace Lox

/-- What a native answers to the moved arguments is its answer moved: it depends on what
the arguments are, and not on where their functions were written. -/
def Operation.Follows (move : Span → Span) (operation : Operation) : Prop :=
  ∀ (moment : Nat) (arguments : List Value),
    operation.answer moment (arguments.map (Value.moved move)) =
      (operation.answer moment arguments).map (Value.moved move)

/-- All natives of the world follow the move. -/
def World.Follows (move : Span → Span) (world : World) : Prop :=
  ∀ operation ∈ world.natives, operation.Follows move

/-- The clock looks at no place. -/
theorem World.follows_initial (move : Span → Span) (callLimit : Nat) (outlet : Outlet)
    (clock : Clock) : (World.initial callLimit outlet clock).Follows move := by
  intro operation member moment arguments
  obtain rfl := Array.mem_singleton.mp member
  simp only [Operation.clock]
  cases clock.reading moment <;> rfl

/-! ## Moved machines -/

/-- The flow with its value moved. -/
def Flow.moved (move : Span → Span) : Flow → Flow
  | .normal => .normal
  | .break => .break
  | .continue => .continue
  | .return value => .return (value.moved move)

/-- The loop at other places. -/
def Loop.moved (move : Span → Span) (loop : Loop) : Loop :=
  ⟨loop.condition.moved move, loop.body.moved move, movedOptionalExpr move loop.increment⟩

/-- The frame with all its trees and values moved. -/
def Frame.moved (move : Span → Span) {awaited outcome : Awaited} :
    Frame awaited outcome → Frame awaited outcome
  | .assign target => .assign (target.moved move)
  | .unary operator span => .unary operator (move span)
  | .leftOperand operator right span => .leftOperand operator (right.moved move) (move span)
  | .rightOperand operator left span => .rightOperand operator (left.moved move) (move span)
  | .logical operator right => .logical operator (right.moved move)
  | .callee arguments span => .callee (movedExprs move arguments) (move span)
  | .argument called before others span =>
      .argument (called.moved move) (before.map (Value.moved move)) (movedExprs move others)
        (move span)
  | .property name => .property (name.moved move)
  | .fieldObject name value => .fieldObject (name.moved move) (value.moved move)
  | .fieldValue object name => .fieldValue (object.moved move) (name.moved move)
  | .discard => .discard
  | .print span => .print (move span)
  | .declare name => .declare (name.moved move)
  | .branch thenBranch elseBranch =>
      .branch (thenBranch.moved move) (movedOptionalStmt move elseBranch)
  | .condition loop => .condition (loop.moved move)
  | .round loop => .round (loop.moved move)
  | .increment loop => .increment (loop.moved move)
  | .return => .return
  | .sequence others => .sequence (movedStmts move others)
  | .leave previous => .leave previous
  | .body function span => .body (function.moved move) (move span)
  | .construct object => .construct (object.moved move)
  | .call => .call

/-- The stack with all its frames moved. -/
def Stack.moved (move : Span → Span) : {awaited : Awaited} → Stack awaited → Stack awaited
  | _, .empty => .empty
  | _, .push frame rest => .push (frame.moved move) (rest.moved move)

namespace Machine

/-- The machine with all that is in it moved. -/
def moved (move : Span → Span) (before : Array String) : Machine → Machine
  | .evaluate world expr stack =>
      .evaluate (world.moved move before) (expr.moved move) (stack.moved move)
  | .execute world stmt stack =>
      .execute (world.moved move before) (stmt.moved move) (stack.moved move)
  | .answer world found stack =>
      .answer (world.moved move before) (found.moved move) (stack.moved move)
  | .finish world flow stack =>
      .finish (world.moved move before) (flow.moved move) (stack.moved move)
  | .raise world fault stack =>
      .raise (world.moved move before) (fault.moved move) (stack.moved move)

/-! ## Steps -/

end Machine

/-- The edition in which all stands at other places, and nothing else is changed. -/
def Edition.moving (move : Span → Span) (before : Array String) : Edition :=
  ⟨.moving move, id, before⟩

section Moving

variable (move : Span → Span) (before : Array String)

@[simp] theorem Edition.toSpelling_moving :
    (Edition.moving move before).toSpelling = .moving move := rfl

theorem World.respelled_moving (world : World) :
    world.respelled (.moving move before) = world.moved move before := by
  have values : Value.respelled (.moving move) = Value.moved move :=
    funext (Value.respelled_moving move)
  simp [World.respelled, World.moved, Edition.moving, values]

theorem Flow.respelled_moving (flow : Flow) : flow.respelled (.moving move) = flow.moved move := by
  cases flow <;> simp [Flow.respelled, Flow.moved, Value.respelled_moving]

theorem Loop.respelled_moving (inside : Bool) (loop : Loop) :
    loop.respelled (.moving move) inside = loop.moved move := by
  simp [Loop.respelled, Loop.moved, Expr.respelled_moving, Stmt.respelled_moving,
    respelledOptionalExpr_moving]

theorem Frame.respelled_moving (inside : Bool) {awaited outcome : Awaited}
    (frame : Frame awaited outcome) : frame.respelled (.moving move) inside = frame.moved move := by
  have values : Value.respelled (.moving move) = Value.moved move :=
    funext (Value.respelled_moving move)
  cases frame with
  | «construct» object =>
      exact congrArg Frame.construct (object.respelled_moving move)
  | fieldValue object name =>
      exact congrArg (Frame.fieldValue · (name.moved move)) (object.respelled_moving move)
  | _ =>
      simp [Frame.respelled, Frame.moved, values, Expr.respelled_moving, respelledExprs_moving,
        Stmt.respelled_moving, respelledStmts_moving, respelledOptionalStmt_moving,
        Loop.respelled_moving, Function.respelled_moving]

theorem Stack.respelled_moving {awaited : Awaited} (scope : Option EnvironmentRef)
    (stack : Stack awaited) : stack.respelled (.moving move) scope = stack.moved move := by
  induction stack generalizing scope with
  | empty => rfl
  | push frame rest inductionHypothesis =>
      rw [Stack.respelled, Stack.moved, frame.respelled_moving, inductionHypothesis]

theorem Machine.respelled_moving (machine : Machine) :
    machine.respelled (.moving move before) = machine.moved move before := by
  cases machine <;>
    simp only [Machine.respelled, Machine.moved, World.respelled_moving, Edition.toSpelling_moving,
      Expr.respelled_moving, Stmt.respelled_moving, Value.respelled_moving, Flow.respelled_moving,
      Stack.respelled_moving, Spelling.place_moving]

theorem World.Follows.admits {world : World} (follows : world.Follows move) :
    world.Admits (.moving move before) := by
  have values : Value.respelled (.moving move) = Value.moved move :=
    funext (Value.respelled_moving move)
  intro operation member moment arguments
  show operation.answer moment (arguments.map (Value.respelled (.moving move))) =
    (operation.answer moment arguments).map (Value.respelled (.moving move))
  rw [values]
  exact follows operation member moment arguments

end Moving

/-- A step of the moved machine is the moved step. -/
theorem Machine.next_moved (move : Span → Span) (before : Array String) {machine : Machine}
    (follows : machine.world.Follows move) :
    (machine.moved move before).next = machine.next.moved move before := by
  have step := next_respelled (.moving move before) (follows.admits move before)
  rwa [respelled_moving, respelled_moving] at step

end Lox
