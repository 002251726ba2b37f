import Lox.Proofs.Lexical.Refinement
import Lox.Proofs.Receiver.Record

/-!
Contract: every statement that a session begins runs beside a run by name, and that one
agrees with the ledger of the session.

Owns: the ledger from one statement to the next, over all requests of a session. Does not
own: what a run that agrees with its ledger can do.
-/

set_option autoImplicit false

namespace Lox

open Binding

/-- A run by name is at the same point and agrees with the ledger. -/
def Machine.Traced (outlet : Outlet) (ledger : Ledger) (machine : Machine) : Prop :=
  ∃ named, Lexical.Mirrors outlet named machine ∧ Lexical.Recorded ledger named

/-- A world by name is at the same point between two statements, and has made what the
ledger says. -/
def World.Traced (outlet : Outlet) (ledger : Ledger) (world : World) : Prop :=
  ∃ named : Lexical.World, named.Idle outlet ∧ named.Records ledger ∧ world = named.erase

variable {outlet : Outlet} {ledger : Ledger} {budget : Nat}

/-! ## Runs -/

namespace Machine

variable {machine : Machine}

theorem Traced.next (traced : machine.Traced outlet ledger) :
    machine.next.Traced outlet (ledger.after machine) := by
  obtain ⟨named, mirrors, recorded⟩ := traced
  exact ⟨named.next, mirrors.next, recorded.next mirrors⟩

theorem Traced.run (traced : machine.Traced outlet ledger) (steps : Nat) :
    (machine.run steps).Traced outlet (ledger.behind steps machine) := by
  induction steps generalizing machine ledger with
  | zero => exact traced
  | succ steps inductionHypothesis =>
      simp only [Machine.run, Ledger.behind]
      split
      · exact traced
      · exact inductionHypothesis traced.next

/-- What the machine has reached may be left for the top level. -/
theorem Traced.atTopLevel (traced : machine.Traced outlet ledger) :
    machine.world.atTopLevel.Traced outlet ledger := by
  obtain ⟨named, mirrors, recorded⟩ := traced
  obtain ⟨sound, sameWorld⟩ := mirrors.world
  have records : named.world.Records ledger := by
    cases recorded <;> assumption
  have leaves : Lexical.World.Leaves named.world named.world.atTopLevel :=
    .of_same (.of_same rfl rfl rfl rfl) rfl
  exact ⟨named.world.atTopLevel, sound.atTopLevel, records.leaves leaves rfl,
    congrArg World.atTopLevel sameWorld⟩

end Machine

/-! ## Programs -/

namespace Ledger

/-- The ledger behind statements that were begun one after the other. -/
def past (budget : Nat) (ledger : Ledger) (entries : List (World × Stmt)) : Ledger :=
  entries.foldl (fun ledger entry => behind budget (.execute entry.1 entry.2 .empty) ledger) ledger

theorem along_append (budget : Nat) (ledger : Ledger) (first second : List (World × Stmt)) :
    along budget ledger (first ++ second) =
      along budget ledger first ++ along budget (ledger.past budget first) second := by
  induction first generalizing ledger with
  | nil => rfl
  | cons entry rest inductionHypothesis =>
      exact congrArg (List.cons _) (inductionHypothesis _)

/-- The statements along the ledger are those that were begun. -/
theorem mem_of_along {budget : Nat} {ledger : Ledger} {entries : List (World × Stmt)}
    {entry : Ledger × World × Stmt} (member : entry ∈ along budget ledger entries) :
    entry.2 ∈ entries := by
  induction entries generalizing ledger with
  | nil => cases member
  | cons first rest inductionHypothesis =>
      obtain rfl | later := List.mem_cons.mp member
      · exact List.mem_cons_self
      · exact List.mem_cons_of_mem _ (inductionHypothesis later)

end Ledger

namespace World

variable {world : World}

theorem traced_initial (callLimit : Nat) (outlet : Outlet) (clock : Clock) :
    (initial callLimit outlet clock).Traced outlet [] := by
  refine ⟨Lexical.World.initial callLimit outlet clock, Lexical.World.idle_initial callLimit outlet clock,
    ⟨?_, rfl⟩, (Lexical.World.erase_initial callLimit outlet clock).symm⟩
  intro home member
  simp [Lexical.World.initial, Lexical.World.defineNative] at member

theorem Traced.clearOutput (traced : world.Traced outlet ledger) :
    world.clearOutput.Traced outlet ledger := by
  obtain ⟨named, idle, records, rfl⟩ := traced
  have leaves : Lexical.World.Leaves named named.clearOutput :=
    .of_same (.of_same rfl rfl rfl rfl) rfl
  exact ⟨named.clearOutput, idle.clearOutput, records.leaves leaves rfl, rfl⟩

theorem Traced.defineNative (traced : world.Traced outlet ledger) (name : String) (arity : Nat)
    {operation : Operation} (honest : operation.Honest world) :
    (world.defineNative name arity operation).Traced outlet ledger := by
  obtain ⟨named, idle, records, rfl⟩ := traced
  have grows : Lexical.World.Grows named (named.defineNative name arity operation) :=
    { homes := fun _ _ found => found
      activations := fun _ activation found => ⟨activation, found, rfl, List.prefix_rfl⟩
      natives := by simp [Lexical.World.defineNative]
      outlet := rfl }
  have answers : operation.AnswersFrom named.Knows :=
    honest.answersFrom fun _ => idle.sound.knows_of_contains
  exact ⟨named.defineNative name arity operation, idle.defineNative name arity answers,
    records.leaves (.of_same grows rfl) rfl, rfl⟩

theorem Traced.execute (traced : world.Traced outlet ledger) {stmt : Stmt} (bound : stmt.Bound []) :
    Machine.Traced outlet ledger (.execute world stmt .empty) := by
  obtain ⟨named, idle, records, rfl⟩ := traced
  have noneWaits : named.setting.pending = none := by rw [idle.setting]
  have boundHere : stmt.Bound named.setting.context := by
    rw [idle.setting]
    exact bound
  have here : named.Here ledger named.scope (.empty : Stack .flow) := by
    rw [idle.scope]
    exact ⟨(fun _ inside => nomatch inside), rfl⟩
  exact ⟨.execute named stmt .empty, .execute idle.ready noneWaits boundHere idle.scope,
    .execute records here trivial⟩

/-- A completed statement leaves the world at top level. -/
theorem Traced.completed (traced : world.Traced outlet ledger) {stmt : Stmt}
    (bound : stmt.Bound []) {reached : World}
    (completed : world.runStatement budget stmt = (.completed, reached)) :
    reached.Traced outlet (ledger.behind budget (.execute world stmt .empty)) := by
  obtain ⟨named, mirrors, recorded⟩ := (traced.execute bound).run budget
  have sameWorld := runStatement_world budget world stmt
  unfold runStatement at completed sameWorld
  split at completed
  · next finished flow ends =>
      obtain rfl : finished = reached := (Prod.mk.inj completed).2
      rw [ends] at mirrors
      cases mirrors with
      | finish ready _ atTop =>
          cases recorded with
          | finish records _ => exact ⟨_, ⟨ready.sound, atTop⟩, records, rfl⟩
  · cases (Prod.mk.inj completed).1
  · cases (Prod.mk.inj completed).1

/-- The ledger keeps up with the statements of a program. -/
theorem Traced.interpret (traced : world.Traced outlet ledger) {stmts : List Stmt}
    (bound : boundStmts [] stmts) (budget : Nat) :
    (∀ entry ∈ Ledger.along budget ledger (world.begun budget stmts),
        Machine.Traced outlet entry.1 (.execute entry.2.1 entry.2.2 .empty)) ∧
      (world.interpret budget stmts).2.Traced outlet
        (ledger.past budget (world.begun budget stmts)) := by
  induction stmts generalizing world ledger with
  | nil =>
      refine ⟨(fun _ member => nomatch member), ?_⟩
      simp only [World.interpret]
      split <;> exact traced
  | cons stmt others inductionHypothesis =>
      have begins := traced.execute bound.1
      have reached := (begins.run budget).atTopLevel
      rw [← runStatement_world] at reached
      have boundOthers : boundStmts [] others := Lexical.World.contextAfter_top stmt ▸ bound.2
      have alone : ∀ entry ∈ Ledger.along budget ledger [(world, stmt)],
          Machine.Traced outlet entry.1 (.execute entry.2.1 entry.2.2 .empty) := by
        intro entry member
        obtain rfl := List.mem_singleton.mp member
        exact begins
      cases outcome : world.runStatement budget stmt with
      | mk verdict later =>
          rw [outcome] at reached
          simp only [World.interpret, begun, outcome]
          cases verdict with
          | completed =>
              obtain ⟨along, ends⟩ :=
                inductionHypothesis (traced.completed bound.1 outcome) boundOthers
              refine ⟨fun entry member => ?_, ends⟩
              obtain rfl | after := List.mem_cons.mp member
              · exact begins
              · exact along entry after
          | failed fault => exact ⟨alone, reached⟩
          | unfinished => exact ⟨alone, reached⟩

end World

/-! ## Sessions -/

namespace Session

/-- The session is between two requests, and the ledger tells what it has made. -/
structure Traced (outlet : Outlet) (ledger : Ledger) (session : Session) : Prop where
  world : session.world.Traced outlet ledger
  atTop : AtTop session.resolver

variable {session : Session}

theorem traced_new (callLimit : Nat) (outlet : Outlet) (clock : Clock) :
    (new callLimit outlet clock).Traced outlet [] where
  world := World.traced_initial callLimit outlet clock
  atTop := atTop_foldl_defineGlobal _ (atTop_withGlobals .empty)

/-- The ledger keeps up with the answer to a request. -/
theorem Traced.answer (traced : session.Traced outlet ledger) {request : Request}
    (honest : request.Honest session.world) (budget : Nat) :
    (∀ entry ∈ Ledger.along budget ledger (session.begunBy budget request),
        Machine.Traced outlet entry.1 (.execute entry.2.1 entry.2.2 .empty)) ∧
      (session.answer budget request).2.Traced outlet
        (ledger.past budget (session.begunBy budget request)) := by
  cases read : request.program? with
  | none =>
      simp only [begunBy, read]
      refine ⟨(fun _ member => nomatch member), ?_⟩
      obtain ⟨report, same⟩ | ⟨name, arity, operation, rfl⟩ := answer_of_malformed budget read
      · rw [same]
        exact traced
      · exact ⟨traced.world.defineNative name arity honest, traced.atTop.defineGlobal name⟩
  | some program =>
      have after := traced.atTop.resolve program
      simp only [begunBy, read, answer_of_program? budget read]
      cases errors : (session.resolver.resolve program).errors with
      | nil =>
          have bound := traced.atTop.bound (Request.unbound_of_program? read) errors
          obtain ⟨along, ends⟩ := traced.world.clearOutput.interpret bound budget
          rw [execute_of_accepted budget errors]
          exact ⟨along, ends, after⟩
      | cons first others =>
          have rejected : (session.resolver.resolve program).errors ≠ [] := by simp [errors]
          rw [execute_of_rejected budget rejected]
          exact ⟨(fun _ member => nomatch member), traced.world, after⟩

/-- The ledger keeps up with all requests. -/
theorem Traced.begun (traced : session.Traced outlet ledger) {requests : List Request}
    (honest : session.ServedHonestly budget requests) :
    ∀ entry ∈ Ledger.along budget ledger (session.begun budget requests),
      Machine.Traced outlet entry.1 (.execute entry.2.1 entry.2.2 .empty) := by
  induction requests generalizing session ledger with
  | nil => exact fun _ member => nomatch member
  | cons request rest inductionHypothesis =>
      obtain ⟨now, afterwards⟩ := traced.answer honest.1 budget
      intro entry member
      simp only [Session.begun, Ledger.along_append] at member
      obtain first | later := List.mem_append.mp member
      · exact now entry first
      · exact inductionHypothesis afterwards honest.2 entry later

end Session

end Lox
