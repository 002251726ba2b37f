import Lox.Proofs.Running.Base
import Lox.Proofs.Running.Begun
import Lox.Proofs.Running.Flow

/-!
Contract: no flow is lost.

A program discards the flow that a statement at top level ends with, and a call that of
a body unless it is a return; an initializer discards also what is returned. In a
session none of them ever discards anything: binding has confined the jumps of all trees
that run, and the world contains functions of such trees alone.

Main statement: `Session.jumps_confined`.

Owns: confined sessions. Does not own: steps.
-/

set_option autoImplicit false

namespace Lox

open Binding

/-- The statement goes on, or returns from the function around it. -/
def Flow.Settled (flow : Flow) : Prop := flow = .normal ∨ ∃ value, flow = .return value

theorem Flow.Confined.settled {flow : Flow} {kind : FunctionKind}
    (flows : flow.Confined (.body kind)) : flow.Settled := by
  cases flow with
  | normal => exact .inl rfl
  | «return» value => exact .inr ⟨value, rfl⟩
  | «break» => cases flows
  | «continue» => cases flows

theorem Flow.Confined.normal {flow : Flow} (flows : flow.Confined .outside) : flow = .normal := by
  cases flow with
  | normal => rfl
  | «return» value => exact absurd rfl flows.2.1
  | «break» => cases flows
  | «continue» => cases flows

namespace Machine

/-- The function whose body has ended, and the flow that it has ended with. -/
def endedBody? : Machine → Option (Function × Flow)
  | .finish _ flow (.push (.body function _) _) => some (function, flow)
  | _ => none

/-- The flow that the body for a new instance has ended with. -/
def endedConstruction? : Machine → Option Flow
  | .finish _ flow (.push (.body _ _) (.push (.construct _) _)) => some flow
  | _ => none

variable {base : Enclosure}

theorem Confined.endedBody {machine : Machine} (confined : machine.Confined base)
    {function : Function} {flow : Flow} (ended : machine.endedBody? = some (function, flow)) :
    flow.Settled ∧ (function.isInitializer = true → flow = .normal ∨ flow = .return .nil) := by
  unfold endedBody? at ended
  split at ended
  · obtain ⟨rfl, rfl⟩ := Prod.mk.inj (Option.some.inj ended)
    cases confined with
    | @finish _ _ _ enclosure _ flows awaits =>
        obtain ⟨⟨noLoop, _, initializer⟩, _⟩ := awaits
        obtain ⟨kind, _⟩ := enclosure
        obtain rfl := noLoop
        refine ⟨flows.settled, fun isInitializer => ?_⟩
        obtain rfl | ⟨value, rfl⟩ := flows.settled
        · exact .inl rfl
        · obtain rfl := flows.2.2 (initializer.mpr isInitializer)
          exact .inr rfl
  · cases ended

theorem Confined.endedConstruction {machine : Machine} (confined : machine.Confined base)
    {flow : Flow} (ended : machine.endedConstruction? = some flow) :
    flow = .normal ∨ flow = .return .nil := by
  unfold endedConstruction? at ended
  split at ended
  · next function span object stack =>
      obtain rfl := Option.some.inj ended
      have body := confined.endedBody rfl
      cases confined with
      | finish _ _ awaits => exact body.2 awaits.2.1
  · cases ended

theorem Confined.meets {machine : Machine} (confined : machine.Confined base) :
    machine.world.Meets .confined := by
  cases confined <;> assumption

/-- A statement ends in the middle of a run as it does alone. -/
theorem execute_onto {world ended : World} {stmt : Stmt} {flow : Flow}
    (executes : world.Executes stmt flow ended) (stack : Stack .flow) :
    ∃ steps, (Machine.execute world stmt stack).run steps = .finish ended flow stack := by
  obtain ⟨steps, finishes⟩ := executes
  have done : ((Machine.execute world stmt .empty).run steps).isDone = true := by
    rw [finishes]
    rfl
  obtain ⟨last, same, going⟩ := exists_first_done (.execute world stmt .empty) done
  have onto := run_onto (underneath stack) last going
  rw [same, finishes] at onto
  exact ⟨last, onto⟩

/-- A loop ends as a statement around which there is no loop. -/
theorem settled_loop {world ended : World} {condition : Expr} {body : Stmt}
    {increment : Option Expr} {span : Span} {flow : Flow} {enclosure : Enclosure}
    (meets : world.Meets .confined)
    (tree : (Stmt.loop condition body increment span).Confined enclosure)
    (executes : world.Executes (.loop condition body increment span) flow ended) :
    flow.Settled := by
  obtain ⟨steps, finishes⟩ := executes
  have alone : (Stmt.loop condition body increment span).Confined (.body enclosure.kind) := tree
  have begins : Machine.Confined (.body enclosure.kind)
      (.execute world (.loop condition body increment span) .empty) := .execute meets alone rfl
  have ends := begins.run steps
  rw [finishes] at ends
  cases ends with
  | finish _ flows rest =>
      obtain rfl := rest
      exact flows.settled

end Machine

/-! ## Sessions -/

namespace World

variable {world : World} {budget : Nat}

theorem Meets.runStatement (meets : world.Meets .confined) {stmt : Stmt}
    (tree : stmt.Confined .outside) (budget : Nat) : (world.runStatement budget stmt).2.Meets .confined := by
  have begins : Machine.Confined .outside (.execute world stmt .empty) := .execute meets tree rfl
  rw [runStatement_world]
  exact (begins.run budget).meets

theorem Meets.interpret (meets : world.Meets .confined) {stmts : List Stmt}
    (trees : confinedStmts .outside stmts) : (world.interpret budget stmts).2.Meets .confined := by
  induction stmts generalizing world with
  | nil =>
      simp only [World.interpret]
      split <;> exact meets
  | cons stmt others inductionHypothesis =>
      have reached := meets.runStatement trees.1 budget
      simp only [World.interpret]
      split
      · next completed =>
          rw [completed] at reached
          exact inductionHypothesis reached trees.2
      · next failed =>
          rw [failed] at reached
          exact reached.moved rfl rfl rfl rfl

end World

theorem confined_of_mem {enclosure : Enclosure} {stmts : List Stmt}
    (trees : confinedStmts enclosure stmts) {stmt : Stmt} (member : stmt ∈ stmts) :
    stmt.Confined enclosure := by
  induction stmts with
  | nil => cases member
  | cons first others inductionHypothesis =>
      obtain rfl | later := List.mem_cons.mp member
      · exact trees.1
      · exact inductionHypothesis trees.2 later

namespace Session

variable {session : Session} {budget : Nat}

/-- The session is between two requests, and its functions are confined. -/
structure Orderly (session : Session) : Prop where
  meets : session.world.Meets .confined
  atTop : AtTop session.resolver

theorem orderly_new (callLimit : Nat) (outlet : Outlet) (clock : Clock) :
    (new callLimit outlet clock).Orderly where
  meets := World.meets_initial callLimit outlet clock
  atTop := atTop_foldl_defineGlobal _ (atTop_withGlobals .empty)

theorem Orderly.answer (orderly : session.Orderly) {request : Request}
    (honest : request.Honest session.world) :
    (session.answer budget request).2.Orderly := by
  have kept := answer_of_kept budget
    (fun world resolver => world.Meets .confined ∧ AtTop resolver) honest
    ⟨orderly.meets, orderly.atTop⟩
    (fun program _ => ⟨orderly.meets, orderly.atTop.resolve program⟩)
    (fun program _ accepted =>
      ⟨orderly.meets.clearOutput.interpret (orderly.atTop.confined accepted), orderly.atTop.resolve program⟩)
    (fun name arity _ honest =>
      ⟨orderly.meets.defineNative name arity
          (honest.answersFrom fun _ => orderly.meets.of_contains),
        orderly.atTop.defineGlobal name⟩)
  exact ⟨kept.1, kept.2⟩

theorem Orderly.begunBy (orderly : session.Orderly) {request : Request} :
    ∀ entry ∈ session.begunBy budget request,
      entry.1.Meets .confined ∧ entry.2.Confined .outside := by
  refine begunBy_of_accepted fun program _ accepted => ?_
  have trees := orderly.atTop.confined accepted
  refine World.begun_of_kept ?_ orderly.meets.clearOutput fun _ => confined_of_mem trees
  intro world stmt reached meets tree completed
  have kept := meets.runStatement tree budget
  rwa [completed] at kept

/-- In every statement that a session begins: the statement itself ends normally, if it
ends without a fault; bodies of functions end normally or return, and those of
initializers return nothing; loops end normally or return, and in the run as they do
alone. -/
theorem jumps_confined (callLimit : Nat) (outlet : Outlet) (clock : Clock) (budget : Nat)
    {requests : List Request}
    (honest : ServedHonestly budget requests (new callLimit outlet clock)) :
    ∀ entry ∈ begun budget requests (new callLimit outlet clock),
      (∀ flow ended, entry.1.Executes entry.2 flow ended → flow = .normal) ∧
      ∀ steps : Nat,
        (∀ function flow,
          ((Machine.execute entry.1 entry.2 .empty).run steps).endedBody? =
              some (function, flow) →
            flow.Settled ∧
              (function.isInitializer = true → flow = .normal ∨ flow = .return .nil)) ∧
        (∀ flow,
          ((Machine.execute entry.1 entry.2 .empty).run steps).endedConstruction? = some flow →
            flow = .normal ∨ flow = .return .nil) ∧
        ∀ world condition body increment span stack,
          (Machine.execute entry.1 entry.2 .empty).run steps =
              .execute world (.loop condition body increment span) stack →
            ∀ flow ended, world.Executes (.loop condition body increment span) flow ended →
              flow.Settled ∧ ∃ more,
                (Machine.execute entry.1 entry.2 .empty).run (steps + more) =
                  .finish ended flow stack := by
  refine begun_of_kept (fun _ _ orderly honest => orderly.answer honest) ?_ honest
    (orderly_new callLimit outlet clock)
  intro session request orderly entry member
  obtain ⟨meets, tree⟩ := orderly.begunBy entry member
  have begins : Machine.Confined .outside (.execute entry.1 entry.2 .empty) :=
    .execute meets tree rfl
  refine ⟨?_, fun steps => ⟨?_, ?_, ?_⟩⟩
  · intro flow ended executes
    obtain ⟨steps, finishes⟩ := executes
    have ends := begins.run steps
    rw [finishes] at ends
    cases ends with
    | finish _ flows rest =>
        obtain rfl := rest
        exact flows.normal
  · exact fun function flow ended => (begins.run steps).endedBody ended
  · exact fun flow ended => (begins.run steps).endedConstruction ended
  · intro world condition body increment span stack reaches flow ended executes
    have confined := begins.run steps
    rw [reaches] at confined
    cases confined with
    | execute meets tree _ =>
        obtain ⟨more, finishes⟩ := Machine.execute_onto executes stack
        refine ⟨Machine.settled_loop meets tree executes, more, ?_⟩
        rw [Machine.run_add, reaches, finishes]

/-- An initializer and a function that both leave a loop, the one by a return and the
other by a jump. -/
def leavingLoops : String :=
  "class A \x7b init() \x7b while (true) \x7b return; \x7d \x7d \x7d " ++
    "fun f() \x7b while (true) \x7b A(); break; \x7d return 1; \x7d f();"

theorem jumps_confined_leavingLoops :
    ∃ entry ∈ begun 200 [.run leavingLoops] (new 2048 .working (.still 0)),
      (∃ flow,
        ((Machine.execute entry.1 entry.2 .empty).run 22).endedConstruction? = some flow ∧
          (flow = .normal ∨ flow = .return .nil)) ∧
      ∃ function flow,
        ((Machine.execute entry.1 entry.2 .empty).run 37).endedBody? = some (function, flow) ∧
          flow.Settled := by
  have honest : ServedHonestly 200 [.run leavingLoops] (new 2048 .working (.still 0)) :=
    ⟨trivial, trivial⟩
  have reaches : (begun 200 [.run leavingLoops] (new 2048 .working (.still 0))).any (fun entry =>
      ((Machine.execute entry.1 entry.2 .empty).run 22).endedConstruction?.isSome &&
        ((Machine.execute entry.1 entry.2 .empty).run 37).endedBody?.isSome) = true := by
    decide +kernel
  obtain ⟨entry, member, both⟩ := List.any_eq_true.mp reaches
  obtain ⟨constructs, returns⟩ := Bool.and_eq_true_iff.mp both
  obtain ⟨flow, constructed⟩ := Option.isSome_iff_exists.mp constructs
  obtain ⟨⟨function, reached⟩, ended⟩ := Option.isSome_iff_exists.mp returns
  have guarantees := (jumps_confined 2048 .working (.still 0) 200 honest entry member).2
  exact ⟨entry, member, ⟨flow, constructed, (guarantees 22).2.1 flow constructed⟩,
    function, reached, ended, ((guarantees 37).1 function reached ended).1⟩

end Session

end Lox
