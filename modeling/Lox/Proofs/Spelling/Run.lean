import Lox.Proofs.Running.CallLimit
import Lox.Proofs.Running.Host
import Lox.Proofs.Spelling.Step

/-!
Contract: runs of programs in another spelling.

A run of an edition is the edition of the run: it ends alike, with a fault at the place that the
spelling puts it, and leaves the edition of the world that is left.

Main statement: `World.interpret_respelled`.

Owns: runs of editions. Does not own: which trees have a spelling in common.
-/

set_option autoImplicit false

namespace Lox

/-- The verdict with its fault at another place. -/
def Verdict.moved (move : Span → Span) : Verdict → Verdict
  | .completed => .completed
  | .failed fault => .failed (fault.moved move)
  | .unfinished => .unfinished

theorem World.Admits.of_host {edition : Edition} {before after : World}
    (admits : before.Admits edition) (same : after.host = before.host) : after.Admits edition := by
  have natives : after.natives = before.natives := congrArg Host.natives same
  unfold World.Admits
  rw [natives]
  exact admits

/-- Where all names are kept, it does not matter whether there is a scope. -/
theorem respelledStmts_of_word_eq_id {spelling : Spelling} (kept : spelling.word = id)
    (inside other : Bool) (stmts : List Stmt) :
    respelledStmts spelling inside stmts = respelledStmts spelling other stmts := by
  have moving : spelling = .moving spelling.place := congrArg (Spelling.mk spelling.place) kept
  rw [moving, respelledStmts_moving, respelledStmts_moving]

/-- What holds of a step holds of a run. -/
theorem Machine.run_respelled (edition : Edition) (steps : Nat) (machine : Machine)
    (admits : machine.world.Admits edition) :
    (machine.respelled edition).run steps = (machine.run steps).respelled edition := by
  induction steps generalizing machine with
  | zero => rfl
  | succ steps inductionHypothesis =>
      simp only [run, isDone_respelled]
      split
      · rfl
      · rw [next_respelled edition admits]
        exact inductionHypothesis machine.next (admits.of_host machine.next_host)

namespace World

variable (edition : Edition) (budget : Nat) {world : World}

theorem runStatement_respelled (admits : world.Admits edition) (stmt : Stmt) :
    (world.respelled edition).runStatement budget (stmt.respelled edition world.scope.isSome) =
      ((world.runStatement budget stmt).1.moved edition.place,
        (world.runStatement budget stmt).2.respelled edition) := by
  have ran : Machine.run budget (.execute (world.respelled edition)
      (stmt.respelled edition world.scope.isSome) .empty) =
        (Machine.run budget (.execute world stmt .empty)).respelled edition :=
    Machine.run_respelled edition budget (.execute world stmt .empty) admits
  simp only [runStatement, ran]
  cases Machine.run budget (.execute world stmt .empty) with
  | evaluate => rfl
  | execute => rfl
  | answer => rfl
  | finish reached flow stack => cases stack <;> rfl
  | raise reached fault stack => cases stack <;> rfl

/-- What is said of output at the end of a program stands nowhere: there it stays, or else it is
never said. -/
def EndsInPlace (place : Span → Span) (world : World) : Prop :=
  place .nowhere = .nowhere ∨ ∀ written, (world.outlet.behind written).flushFailure = none

theorem endsInPlace_of_working (place : Span → Span) (works : world.outlet = .working) :
    world.EndsInPlace place :=
  .inr fun _ => by rw [works]; rfl

theorem EndsInPlace.of_host {place : Span → Span} {after : World}
    (ends : world.EndsInPlace place) (same : after.host = world.host) :
    after.EndsInPlace place := by
  have outlet : after.outlet = world.outlet := congrArg Host.outlet same
  unfold EndsInPlace
  rw [outlet]
  exact ends

theorem EndsInPlace.flushFault? {place : Span → Span} (ends : world.EndsInPlace place) :
    world.flushFault?.map (Fault.moved place) = world.flushFault? := by
  simp only [World.flushFault?, sink]
  rcases ends with nowhere | never
  · rw [Option.map_map]
    exact congrArg (Option.map · (world.outlet.behind world.written).flushFailure)
      (funext fun reason => congrArg (Fault.mk (.breach (.output reason))) nowhere)
  · rw [never]
    rfl

/-- A run of the respelled program in the edition of the world is the edition of the run. Where
names are changed, the environment must be the same for all statements of the program, which
it is unless too many calls were in progress from the start. -/
theorem interpret_respelled (admits : world.Admits edition)
    (ends : world.EndsInPlace edition.place)
    (tracks : edition.word = id ∨ world.callDepth ≤ world.callLimit) (stmts : List Stmt) :
    (world.respelled edition).interpret budget
        (respelledStmts edition world.scope.isSome stmts) =
      ((world.interpret budget stmts).1.moved edition.place,
        (world.interpret budget stmts).2.respelled edition) := by
  induction stmts generalizing world with
  | nil =>
      have sameFault : (world.respelled edition).flushFault? = world.flushFault? := rfl
      have inPlace := ends.flushFault?
      simp only [respelledStmts, interpret, sameFault]
      cases fault : world.flushFault? with
      | none => rfl
      | some fault =>
          rw [fault] at inPlace
          exact congrArg (fun found => (Verdict.failed found, world.respelled edition))
            (Option.some.inj inPlace).symm
  | cons stmt others inductionHypothesis =>
      have kept := runStatement_host budget world stmt
      simp only [respelledStmts, interpret, runStatement_respelled edition budget admits]
      cases ran : world.runStatement budget stmt with
      | mk verdict reached =>
          simp only [ran] at kept
          cases verdict with
          | completed =>
              have admitsNext : reached.Admits edition := admits.of_host kept
              have endsNext : reached.EndsInPlace edition.place := ends.of_host kept
              rcases tracks with sameNames | within
              · have later := inductionHypothesis admitsNext endsNext (.inl sameNames)
                rw [respelledStmts_of_word_eq_id sameNames reached.scope.isSome world.scope.isSome]
                  at later
                exact later
              · obtain ⟨scope, depth⟩ := restored_runStatement within ran
                have limit : reached.callLimit = world.callLimit := congrArg Host.callLimit kept
                have withinNext : reached.callDepth ≤ reached.callLimit := by
                  rw [depth, limit]
                  exact within
                have later := inductionHypothesis admitsNext endsNext (.inr withinNext)
                rw [scope] at later
                exact later
          | failed fault => rfl
          | unfinished => rfl

end World

end Lox
