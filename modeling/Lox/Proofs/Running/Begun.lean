import Lox.Proofs.Rejection

/-!
Contract: the statements that a session begins to execute.

Only statements of accepted programs are executed, each in the world that the one before
it has reached; the first that fails ends its program. What is kept from one request to
the next and holds of the statements of accepted programs, holds of everything that a
session ever begins.

Owns: the statements begun, and induction over a session. Does not own: what becomes of
a statement.
-/

set_option autoImplicit false

namespace Lox

open Binding

namespace World

/-- Executing the statement in the world comes to an end with the flow. -/
def Executes (world : World) (stmt : Stmt) (flow : Flow) (ended : World) : Prop :=
  ∃ steps, (Machine.execute world stmt .empty).run steps = .finish ended flow .empty

/-- The statements of a program that are begun, each with the world it begins in. -/
def begun (budget : Nat) : List Stmt → World → List (World × Stmt)
  | [], _ => []
  | stmt :: others, world =>
      (world, stmt) ::
        match world.runStatement budget stmt with
        | (.completed, reached) => begun budget others reached
        | _ => []

/-- However a statement ends, its world is that of the machine that has run it. -/
theorem runStatement_world (budget : Nat) (world : World) (stmt : Stmt) :
    (world.runStatement budget stmt).2 =
      (Machine.run budget (.execute world stmt .empty)).world := by
  unfold runStatement
  split
  · next finished => rw [finished, Machine.world]
  · next raised => rw [raised, Machine.world]
  · rfl

/-- What completed statements keep holds of every statement that is begun. -/
theorem begun_of_kept {budget : Nat} {Good : World → Prop} {Fine : Stmt → Prop}
    (kept : ∀ (world : World) (stmt : Stmt) (reached : World), Good world → Fine stmt →
      world.runStatement budget stmt = (.completed, reached) → Good reached)
    {world : World} (good : Good world) {stmts : List Stmt} (fine : ∀ stmt ∈ stmts, Fine stmt) :
    ∀ entry ∈ world.begun budget stmts, Good entry.1 ∧ Fine entry.2 := by
  induction stmts generalizing world with
  | nil => exact fun _ member => nomatch member
  | cons stmt others inductionHypothesis =>
      intro entry member
      simp only [begun] at member
      obtain rfl | later := List.mem_cons.mp member
      · exact ⟨good, fine stmt List.mem_cons_self⟩
      · split at later
        · next reached completed =>
            have goodLater := kept world stmt reached good (fine stmt List.mem_cons_self) completed
            have fineLater : ∀ other ∈ others, Fine other :=
              fun other among => fine other (List.mem_cons_of_mem _ among)
            exact inductionHypothesis goodLater fineLater entry later
        · cases later

end World

namespace Session

/-- The statements that are begun when the request is answered. -/
def begunBy (budget : Nat) (request : Request) (session : Session) : List (World × Stmt) :=
  match request.program? with
  | none => []
  | some program =>
      match (session.resolver.resolve program).errors with
      | [] =>
          session.world.clearOutput.begun budget
            (session.resolver.resolve program).program.statements
      | _ => []

/-- All statements that are begun while the requests are served, in order. -/
def begun (budget : Nat) : List Request → Session → List (World × Stmt)
  | [], _ => []
  | request :: rest, session =>
      session.begunBy budget request ++ begun budget rest (session.answer budget request).2

variable {budget : Nat} {session : Session}

/-- What is kept over the stages of an answer is kept by the answer. -/
theorem answer_of_kept (budget : Nat) (Kept : World → Resolver → Prop) {request : Request}
    (honest : request.Honest session.world) (kept : Kept session.world session.resolver)
    (rejects : ∀ program : Program, (session.resolver.resolve program).errors ≠ [] →
      Kept session.world (session.resolver.resolve program).resolver)
    (executes : ∀ program : Program, unboundStmts program.statements →
      (session.resolver.resolve program).errors = [] →
      Kept (session.world.clearOutput.interpret budget
          (session.resolver.resolve program).program.statements).2
        (session.resolver.resolve program).resolver)
    (provides : ∀ (name : String) (arity : Nat) (operation : Operation),
      operation.Honest session.world → Kept (session.world.defineNative name arity operation)
        (session.resolver.defineGlobal name)) :
    Kept (session.answer budget request).2.world (session.answer budget request).2.resolver := by
  cases read : request.program? with
  | none =>
      obtain ⟨report, same⟩ | ⟨name, arity, operation, rfl⟩ := answer_of_malformed budget read
      · rw [same]
        exact kept
      · exact provides name arity operation honest
  | some program =>
      rw [answer_of_program? budget read]
      by_cases accepted : (session.resolver.resolve program).errors = []
      · rw [execute_of_accepted budget accepted]
        exact executes program (Request.unbound_of_program? read) accepted
      · rw [execute_of_rejected budget accepted]
        exact rejects program accepted

/-- The statements that a request begins are those of an accepted program. -/
theorem begunBy_of_accepted {Holds : World × Stmt → Prop} {request : Request}
    (executes : ∀ program : Program, unboundStmts program.statements →
      (session.resolver.resolve program).errors = [] →
      ∀ entry ∈ session.world.clearOutput.begun budget
        (session.resolver.resolve program).program.statements, Holds entry) :
    ∀ entry ∈ session.begunBy budget request, Holds entry := by
  intro entry member
  unfold begunBy at member
  split at member
  · cases member
  · next program read =>
      split at member
      · next accepted =>
          exact executes program (Request.unbound_of_program? read) accepted entry member
      · cases member

/-- What each answer keeps holds of everything that is begun. -/
theorem begun_of_kept {Kept : Session → Prop} {Holds : World × Stmt → Prop}
    (answers : ∀ (session : Session) (request : Request), Kept session →
      request.Honest session.world → Kept (session.answer budget request).2)
    (begins : ∀ (session : Session) (request : Request), Kept session →
      ∀ entry ∈ session.begunBy budget request, Holds entry)
    {requests : List Request} (honest : ServedHonestly budget requests session)
    (kept : Kept session) : ∀ entry ∈ session.begun budget requests, Holds entry := by
  induction requests generalizing session with
  | nil => exact fun _ member => nomatch member
  | cons request rest inductionHypothesis =>
      intro entry member
      obtain now | later := List.mem_append.mp member
      · exact begins session request kept entry now
      · exact inductionHypothesis honest.2 (answers session request kept honest.1) entry later

end Session

end Lox
