import Lox.Machine.Step

/-!
Contract: runs of whole programs.

The statements of a program run one after the other at top level, each for at
most a given number of steps. The first fault ends the program and brings the
world back to top level. At the end the output is flushed.

Owns: verdicts on programs. Does not own: single steps.
-/

namespace Lox

/-- How a program ends. -/
inductive Verdict where
  | completed
  | failed (fault : Fault)
  /-- A statement took all its steps and was not done. -/
  | unfinished
deriving DecidableEq, Repr

namespace World

/-- Runs one statement at the present place. -/
def runStatement (budget : Nat) (world : World) (stmt : Stmt) : Verdict × World :=
  match Machine.run budget (.execute world stmt .empty) with
  | .finish reached _ .empty => (.completed, reached)
  | .raise reached failure .empty => (.failed failure, reached)
  | machine => (.unfinished, machine.world)

/-- Runs the statements of a program. -/
def interpret (budget : Nat) : List Stmt → World → Verdict × World
  | [], world =>
      match world.flushFault? with
      | some failure => (.failed failure, world)
      | none => (.completed, world)
  | stmt :: others, world =>
      match world.runStatement budget stmt with
      | (.completed, reached) => interpret budget others reached
      | (verdict, reached) => (verdict, reached.atTopLevel)

end World

end Lox
