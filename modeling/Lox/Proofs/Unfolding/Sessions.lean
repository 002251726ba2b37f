import Lox.Proofs.InStep
import Lox.Proofs.Places.Joined
import Lox.Proofs.Receiver.Traced
import Lox.Proofs.Unfolding.Binding
import Lox.Proofs.Unfolding.Run

/-!
Contract: sessions that run a program, and the program with loops written out.

Whatever a session has served before, its world is mirrored by a world by name. That world is
alike to itself, as all that it holds belongs to activations that it has made. So from one state
of a session the two programs start side by side.

The natives that the host has provided must be discreet, as the two runs hand them different
functions.

Main statement: `Session.Steady.run_unfolds`.

Owns: reports that resemble each other; sessions from which two programs start side by side. Does
not own: the runs.
-/

set_option autoImplicit false

namespace Lox

open Binding

/-! ## Reports -/

/-- The diagnostics agree in all but the span, and but for the depth of a missing local. -/
structure Diagnostic.Resembles (diagnostic other : Diagnostic) : Prop where
  stage : other.stage = diagnostic.stage
  location : other.location = diagnostic.location
  message : other.message = diagnostic.message ∨ ∃ depth depth' slot,
    diagnostic.message = (Fault.Cause.breach (.missingLocal depth slot)).message ∧
      other.message = (Fault.Cause.breach (.missingLocal depth' slot)).message

/-- The reports agree in status, output and diagnostics, which resemble each other one by one. -/
structure Report.Resembles (report other : Report) : Prop where
  status : other.status = report.status
  output : other.output = report.output
  diagnostics : List.Forall₂ Diagnostic.Resembles report.diagnostics other.diagnostics

theorem Fault.Resembles.isFatal {fault other : Fault} (resembles : fault.Resembles other) :
    other.isFatal = fault.isFatal := by
  cases resembles <;> rfl

theorem Fault.Resembles.diagnostic {fault other : Fault} (resembles : fault.Resembles other) :
    fault.diagnostic.Resembles other.diagnostic where
  stage := by simp only [Fault.diagnostic, resembles.isFatal]
  location := rfl
  message := by
    cases resembles with
    | same => exact .inl rfl
    | missingLocal => exact .inr ⟨_, _, _, rfl, rfl⟩

theorem Verdict.Resembles.reportOn {verdict other : Verdict} (resembles : verdict.Resembles other)
    (output : String) :
    (Session.reportOn verdict output).Resembles (Session.reportOn other output) := by
  cases resembles with
  | completed => exact ⟨rfl, rfl, .nil⟩
  | failed faults =>
      refine ⟨?_, rfl, .cons faults.diagnostic .nil⟩
      simp only [Session.reportOn, faults.isFatal]

theorem Session.status_reportOn_eq_unfinished_iff {verdict : Verdict} {output : String} :
    (reportOn verdict output).status = .unfinished ↔ verdict = .unfinished := by
  cases verdict with
  | completed => simp [reportOn]
  | unfinished => simp [reportOn]
  | failed fault => cases fatal : fault.isFatal <;> simp [reportOn, fatal]

/-! ## A world and itself -/

namespace Lexical

variable {outlet : Outlet} {world : World}

/-- A place that the world knows is alike to itself. -/
theorem World.KnowsPlace.alike {place : Place} (knows : world.KnowsPlace place) :
    PlacesAlike (List.range world.activations.size) place place := by
  induction place with
  | nil => exact .top
  | cons sight outer inductionHypothesis =>
      obtain ⟨⟨activation, found, _, _⟩, knowsOuter⟩ := knows
      have made := (Array.getElem?_eq_some_iff.mp found).1
      exact .linked (List.getElem?_range made) (inductionHypothesis knowsOuter)

theorem ArraysAlike.of_mem {α : Type} {alike : α → α → Prop} {array : Array α}
    (same : ∀ value ∈ array, alike value value) : ArraysAlike alike array array := by
  intro index
  cases found : array[index]? with
  | none => exact .none
  | some value => exact .some (same value (Array.mem_of_getElem? found))

theorem optionAlike_refl (content : Option Value) : Option.Rel Value.Alike content content := by
  cases content with
  | none => exact .none
  | some value => exact .some (.refl value)

/-- Every activation is its own partner. -/
theorem World.Idle.alike_self (idle : world.Idle outlet) (knows : world.KnowsHomes)
    (discreet : ∀ operation ∈ world.natives, operation.Discreet) :
    Pair.Alike ⟨List.range world.activations.size, world, world⟩ where
  complete := List.length_range
  distinct := List.nodup_range
  linked ref ref' link := by
    obtain ⟨made, same⟩ := List.getElem?_eq_some_iff.mp link
    obtain rfl : ref = ref' := by simpa using same
    have present : ref < world.activations.size := by simpa using made
    have found : world.activations[ref]? = some world.activations[ref] :=
      Array.getElem?_eq_getElem present
    exact ⟨_, _, found, found, .refl optionAlike_refl _,
      (idle.sound.activations ref _ found).outer.alike⟩
  globals := .refl Value.Alike.refl _
  homes := .of_mem fun home member => (knows home member).alike
  fields := .of_mem fun fields _ => .refl Value.Alike.refl fields
  natives := rfl
  discreet := discreet
  callDepth := rfl
  callLimit := rfl
  moment := rfl
  outlet := rfl
  written := rfl
  printed := rfl

end Lexical

/-! ## Sessions -/

/-- A native that is provided is discreet. -/
def Request.Discreet : Request → Prop
  | .provide _ _ operation => operation.Discreet
  | _ => True

namespace Session

variable {outlet : Outlet} {session : Session}

/-- From this state of a session two programs start side by side. -/
structure Steady (outlet : Outlet) (session : Session) : Prop where
  traced : ∃ ledger, session.Traced outlet ledger
  aligned : session.Aligned
  discreet : ∀ operation ∈ session.world.natives, operation.Discreet

theorem steady_new (callLimit : Nat) (outlet : Outlet) (clock : Clock) :
    (new callLimit outlet clock).Steady outlet where
  traced := ⟨[], traced_new callLimit outlet clock⟩
  aligned := aligned_new callLimit outlet clock
  discreet operation member := by
    have natives : (new callLimit outlet clock).world.natives = #[.clock clock] := rfl
    obtain rfl : operation = .clock clock := by simpa [natives] using member
    exact Operation.discreet_clock clock

theorem discreet_answer (budget : Nat) {request : Request} (provides : request.Discreet)
    (discreet : ∀ operation ∈ session.world.natives, operation.Discreet) :
    ∀ operation ∈ (session.answer budget request).2.world.natives, operation.Discreet := by
  cases read : request.program? with
  | none =>
      obtain ⟨report, same⟩ | ⟨name, arity, provided, rfl⟩ := answer_of_malformed budget read
      · rw [same]
        exact discreet
      · intro operation member
        obtain before | rfl := Array.mem_push.mp member
        · exact discreet operation before
        · exact provides
  | some program =>
      have natives : (session.execute budget program).2.world.natives = session.world.natives :=
        congrArg Host.natives (execute_host budget program)
      rw [answer_of_program? budget read, natives]
      exact discreet

theorem Steady.answer (steady : session.Steady outlet) (budget : Nat) {request : Request}
    (honest : request.Honest session.world) (discreet : request.Discreet) :
    (session.answer budget request).2.Steady outlet where
  traced := by
    obtain ⟨ledger, traced⟩ := steady.traced
    exact ⟨_, (traced.answer honest budget).2⟩
  aligned := steady.aligned.answer budget request
  discreet := discreet_answer budget discreet steady.discreet

theorem Steady.serve (steady : session.Steady outlet) (budget : Nat) {requests : List Request}
    (honest : session.ServedHonestly budget requests)
    (discreet : ∀ request ∈ requests, request.Discreet) :
    (serve (Session.answer budget) requests session).2.Steady outlet := by
  induction requests generalizing session with
  | nil => exact steady
  | cons request rest inductionHypothesis =>
      have next := steady.answer budget honest.1 (discreet request List.mem_cons_self)
      exact inductionHypothesis next honest.2
        (fun other member => discreet other (List.mem_cons_of_mem _ member))

theorem Steady.parallel (steady : session.Steady outlet) :
    World.Parallel outlet session.world session.world := by
  obtain ⟨ledger, traced⟩ := steady.traced
  obtain ⟨named, idle, records, same⟩ := traced.world
  have discreet : ∀ operation ∈ named.natives, operation.Discreet := by
    intro operation member
    refine steady.discreet operation ?_
    rw [same]
    exact member
  exact ⟨_, idle.alike_self records.homes discreet, idle, idle, same, same⟩

/-- From one state of a session, a program that is accepted and one in which loops of it are
written out are both accepted; with steps enough both are done or none of them ever is; and what
they report resembles each other. -/
theorem Steady.execute_unfolds (steady : session.Steady outlet) {program other : Program}
    (unbound : unboundStmts program.statements) (unbound' : unboundStmts other.statements)
    (unfolds : program.Unfolds other)
    (accepted : (session.resolver.resolve program).errors = []) :
    (session.resolver.resolve other).errors = [] ∧
      ((∃ budget, (session.execute budget program).1.status ≠ .unfinished) ↔
        ∃ budget, (session.execute budget other).1.status ≠ .unfinished) ∧
      ∀ budget budget', (session.execute budget program).1.status ≠ .unfinished →
        (session.execute budget' other).1.status ≠ .unfinished →
        (session.execute budget program).1.Resembles (session.execute budget' other).1 := by
  have awaits := steady.aligned.awaits
  obtain ⟨ledger, traced⟩ := steady.traced
  have acceptedOther := (unfolds.accepted_iff awaits).mpr accepted
  have bound := traced.atTop.bound unbound accepted
  have boundOther := traced.atTop.bound unbound' acceptedOther
  have trees := (unfolds.resolve awaits).1
  have parallel := steady.parallel.clearOutput
  simp only [execute_of_accepted _ accepted, execute_of_accepted _ acceptedOther, ne_eq,
    status_reportOn_eq_unfinished_iff]
  refine ⟨acceptedOther, ⟨?_, ?_⟩, ?_⟩
  · rintro ⟨budget, ended⟩
    obtain ⟨enough, verdicts, _⟩ := parallel.interpret bound boundOther trees ended
    exact ⟨enough, verdicts.ended.2⟩
  · rintro ⟨budget, ended⟩
    exact parallel.interpret_of_other bound boundOther trees ended
  · intro budget budget' ended ended'
    obtain ⟨enough, verdicts, printed⟩ := parallel.interpret bound boundOther trees ended
    -- The other program ends in one way only, whatever its budget.
    have sameOther := World.interpret_of_le (Nat.le_max_left enough budget') verdicts.ended.2
    rw [World.interpret_of_le (Nat.le_max_right enough budget') ended'] at sameOther
    rw [← sameOther] at verdicts printed
    simp only [World.output, printed]
    exact verdicts.reportOn _

end Session

end Lox
