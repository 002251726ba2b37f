import Lox.Proofs.Places.Run

/-!
Contract: what was printed stays printed.

A machine may be set behind some lines that were printed before, and goes its way as if
they had not been. So a step, and a run, adds lines behind those that are there.

Main statements: `Machine.printed_run`, `World.printed_interpret`.

Owns: lines printed before and after. Does not own: what is printed.
-/

set_option autoImplicit false

namespace Lox

/-! ## Machines that are not moved -/

theorem Flow.moved_id (flow : Flow) : flow.moved id = flow := by
  cases flow <;> simp [Flow.moved, Value.moved_id]

theorem Loop.moved_id (loop : Loop) : loop.moved id = loop := by
  simp [Loop.moved, Expr.moved_id, Stmt.moved_id, movedOptionalExpr_id]

theorem Instance.moved_id (object : Instance) : object.moved id = object := by
  simp [Instance.moved, Class.moved_id]

theorem Fault.moved_id (fault : Fault) : fault.moved id = fault := rfl

theorem Frame.moved_id {awaited outcome : Awaited} (frame : Frame awaited outcome) :
    frame.moved id = frame := by
  have values : Value.moved id = id := funext Value.moved_id
  cases frame with
  | «construct» object => exact congrArg Frame.construct object.moved_id
  | fieldValue object name => exact congrArg (Frame.fieldValue · name) object.moved_id
  | _ =>
      simp [Frame.moved, values, Value.moved_id, Expr.moved_id, movedExprs_id, Stmt.moved_id,
        movedStmts_id, movedOptionalStmt_id, Loop.moved_id, Function.moved_id]

theorem Stack.moved_id {awaited : Awaited} (stack : Stack awaited) : stack.moved id = stack := by
  induction stack with
  | empty => rfl
  | push frame rest inductionHypothesis => rw [Stack.moved, frame.moved_id, inductionHypothesis]

/-- No native looks at places that stay the same. -/
theorem World.follows_id (world : World) : world.Follows id := by
  intro operation _ moment arguments
  have values : Value.moved id = id := funext Value.moved_id
  rw [values, List.map_id]
  cases operation.answer moment arguments <;> rfl

/-! ## Lines printed before -/

namespace Machine

/-- The machine that has printed nothing yet. -/
def clearOutput : Machine → Machine
  | .evaluate world expr stack => .evaluate world.clearOutput expr stack
  | .execute world stmt stack => .execute world.clearOutput stmt stack
  | .answer world found stack => .answer world.clearOutput found stack
  | .finish world flow stack => .finish world.clearOutput flow stack
  | .raise world fault stack => .raise world.clearOutput fault stack

/-- A machine is what it is without its lines, behind its lines. -/
theorem moved_clearOutput (machine : Machine) :
    machine.clearOutput.moved id machine.world.printed = machine := by
  cases machine <;>
    simp [clearOutput, moved, Machine.world, World.moved_clearOutput, Expr.moved_id, Stmt.moved_id, Value.moved_id,
      Flow.moved_id, Fault.moved_id, Stack.moved_id]

theorem printed_moved (before : Array String) (machine : Machine) :
    (machine.moved id before).world.printed = before ++ machine.world.printed := by
  cases machine <;> rfl

/-- A step prints behind what is there. -/
theorem printed_next (machine : Machine) :
    machine.world.printed.toList <+: machine.next.world.printed.toList := by
  have step := next_moved id machine.world.printed machine.clearOutput.world.follows_id
  rw [moved_clearOutput] at step
  rw [step, printed_moved, Array.toList_append]
  exact List.prefix_append _ _

/-- A run prints behind what is there. -/
theorem printed_run (steps : Nat) (machine : Machine) :
    machine.world.printed.toList <+: (machine.run steps).world.printed.toList := by
  induction steps generalizing machine with
  | zero => exact List.prefix_refl _
  | succ steps inductionHypothesis =>
      simp only [run]
      split
      · exact List.prefix_refl _
      · exact machine.printed_next.trans (inductionHypothesis machine.next)

end Machine

namespace World

theorem printed_runStatement (budget : Nat) (world : World) (stmt : Stmt) :
    world.printed.toList <+: (world.runStatement budget stmt).2.printed.toList := by
  have grows := Machine.printed_run budget (.execute world stmt .empty)
  unfold runStatement
  split
  · next finished => rwa [finished] at grows
  · next raised => rwa [raised] at grows
  · exact grows

/-- A program prints behind what is there. -/
theorem printed_interpret (budget : Nat) (stmts : List Stmt) (world : World) :
    world.printed.toList <+: (world.interpret budget stmts).2.printed.toList := by
  induction stmts generalizing world with
  | nil =>
      simp only [interpret]
      split <;> exact List.prefix_refl _
  | cons stmt others inductionHypothesis =>
      have grows := printed_runStatement budget world stmt
      simp only [interpret]
      split
      · next reached ran =>
          rw [ran] at grows
          exact grows.trans (inductionHypothesis reached)
      · next reached ran =>
          rw [ran] at grows
          exact grows

/-- More lines make a longer text. -/
theorem output_prefix {world longer : World}
    (grows : world.printed.toList <+: longer.printed.toList) :
    world.output.toList <+: longer.output.toList := by
  obtain ⟨more, lines⟩ := grows
  rw [output, output, ← lines, List.map_append, String.join_append, String.toList_append]
  exact List.prefix_append _ _

end World

end Lox
