import Lox.Proofs.Binding.Overlay
import Lox.Proofs.Requests

/-!
Contract: what a rejected request leaves behind.

A request whose report is a static error leaves the world as it was. But the binding of
names goes on behind an error, and the globals that it declares on the way stay known,
although they were never made. A later program that reads a global in its own
initializer is then no longer rejected.

Main statement: `Session.serve_after_rejected_iff`. It says exactly when later requests
are answered as if the rejected one had never been made.

Owns: sessions in which names are known too early. Does not own: the pass over names.
-/

set_option autoImplicit false

namespace Lox

open Binding

/-- The globals that the program of the request declares. -/
def Request.declared (request : Request) : List String :=
  match request.program? with
  | none => []
  | some program => declaredBy program.statements

namespace Session

variable {session stained : Session} {names : List String}

/-! ## Answers -/

/-- No report on a run is a static error. -/
theorem status_reportOn_ne (verdict : Verdict) (output : String) :
    (reportOn verdict output).status ≠ .staticError := by
  cases verdict with
  | completed => simp [reportOn]
  | failed fault =>
      simp only [reportOn]
      split <;> simp
  | unfinished => simp [reportOn]

theorem output_reportOn (verdict : Verdict) (output : String) :
    (reportOn verdict output).output = output := by
  cases verdict <;> rfl

theorem execute_of_accepted {program : Program} (budget : Nat)
    (accepted : (session.resolver.resolve program).errors = []) :
    session.execute budget program =
      (reportOn
        (World.interpret budget (session.resolver.resolve program).program.statements
          session.world.clearOutput).1
        (World.interpret budget (session.resolver.resolve program).program.statements
          session.world.clearOutput).2.output,
      ⟨(World.interpret budget (session.resolver.resolve program).program.statements
          session.world.clearOutput).2, (session.resolver.resolve program).resolver⟩) := by
  simp only [execute, accepted]

theorem execute_of_rejected {program : Program} (budget : Nat)
    (rejected : (session.resolver.resolve program).errors ≠ []) :
    session.execute budget program =
      (⟨.staticError,
        (session.resolver.resolve program).errors.map BindingError.diagnostic, ""⟩,
      ⟨session.world, (session.resolver.resolve program).resolver⟩) := by
  simp only [execute]

theorem resolver_execute (budget : Nat) (program : Program) :
    (session.execute budget program).2.resolver = (session.resolver.resolve program).resolver := by
  by_cases accepted : (session.resolver.resolve program).errors = []
  · rw [execute_of_accepted budget accepted]
  · rw [execute_of_rejected budget accepted]

/-- A request with a program has it executed. -/
theorem answer_of_program? {request : Request} {program : Program} (budget : Nat)
    (read : request.program? = some program) :
    session.answer budget request =
      (some (session.execute budget program).1, (session.execute budget program).2) := by
  cases request with
  | run source =>
      simp only [Request.program?] at read
      simp only [answer, run, read]
  | enter source =>
      simp only [Request.program?] at read
      split at read
      · next expr bare =>
          obtain rfl := Option.some.inj read
          simp only [answer, runEntry, bare]
      · next notBare => simp only [answer, runEntry, notBare, run, read]
  | provide name arity operation => cases read

/-- A request without a program is answered by what does not look at the session. -/
theorem answer_of_malformed {request : Request} (budget : Nat)
    (malformed : request.program? = none) :
    (∃ report, ∀ session : Session, session.answer budget request = (some report, session)) ∨
      ∃ name arity operation, request = .provide name arity operation := by
  cases request with
  | run source =>
      simp only [Request.program?] at malformed
      refine .inl ⟨⟨.staticError, (ParsedSource.of source).diagnostics, ""⟩, fun session => ?_⟩
      simp only [answer, run, malformed]
  | enter source =>
      simp only [Request.program?] at malformed
      split at malformed
      · cases malformed
      · next notBare =>
          refine .inl ⟨⟨.staticError, (ParsedSource.of source).diagnostics, ""⟩, fun session => ?_⟩
          simp only [answer, runEntry, notBare, run, malformed]
  | provide name arity operation => exact .inr ⟨name, arity, operation, rfl⟩

/-! ## Sessions between requests -/

/-- Between two requests no global waits for its initializer. -/
structure AtRest (session : Session) : Prop where
  atTop : AtTop session.resolver
  settled : Settled session.resolver.globals

theorem AtRest.of_overlays {resolver : Resolver} (atRest : session.AtRest)
    (overlays : Overlays names session.resolver resolver) (world : World) :
    AtRest ⟨world, resolver⟩ :=
  ⟨overlays.stainedAtTop, overlays.globals.settled atRest.settled⟩

theorem settled_foldl_defineGlobal (names : List String) {resolver : Resolver}
    (settled : Settled resolver.globals) :
    Settled (names.foldl Resolver.defineGlobal resolver).globals := by
  induction names generalizing resolver with
  | nil => exact settled
  | cons name rest inductionHypothesis =>
      exact inductionHypothesis ((overlaid_insert resolver.globals name).settled settled)

theorem atRest_new (callLimit : Nat) (outlet : Outlet) (clock : Clock) :
    (new callLimit outlet clock).AtRest where
  atTop := atTop_foldl_defineGlobal _ (atTop_withGlobals .empty)
  settled := settled_foldl_defineGlobal _ fun name => by simp [Resolver.fresh, Resolver.withGlobals]

theorem AtRest.execute (atRest : session.AtRest) {program : Program}
    (unbound : unboundStmts program.statements) (budget : Nat) :
    (session.execute budget program).2.AtRest := by
  have overlays := overlays_resolve atRest.atTop atRest.settled unbound
  rw [← resolver_execute budget program] at overlays
  exact atRest.of_overlays overlays _

theorem AtRest.defineNative (atRest : session.AtRest) (name : String) (arity : Nat)
    (operation : Operation) : (session.defineNative name arity operation).AtRest where
  atTop := atRest.atTop.defineGlobal name
  settled := (overlaid_insert _ name).settled atRest.settled

theorem AtRest.answer (atRest : session.AtRest) (budget : Nat) (request : Request) :
    (session.answer budget request).2.AtRest := by
  cases read : request.program? with
  | none =>
      obtain ⟨report, same⟩ | ⟨name, arity, operation, rfl⟩ := answer_of_malformed budget read
      · rw [same]
        exact atRest
      · exact atRest.defineNative name arity operation
  | some program =>
      rw [answer_of_program? budget read]
      exact atRest.execute (Request.unbound_of_program? read) budget

theorem AtRest.serve (atRest : session.AtRest) (budget : Nat) (requests : List Request) :
    (serve (Session.answer budget) requests session).2.AtRest := by
  induction requests generalizing session with
  | nil => exact atRest
  | cons request rest inductionHypothesis =>
      exact inductionHypothesis (atRest.answer budget request)

/-! ## Names that are known too early -/

/-- The second session knows these names as well; otherwise they are the same. -/
structure Stained (names : List String) (session stained : Session) : Prop where
  world : stained.world = session.world
  resolver : Overlays names session.resolver stained.resolver

/-- A rejected request leaves the world alone, and its names known. -/
theorem AtRest.stained_of_rejected (atRest : session.AtRest) {budget : Nat} {request : Request}
    {report : Report} (answered : (session.answer budget request).1 = some report)
    (rejected : report.status = .staticError) :
    Stained request.declared session (session.answer budget request).2 := by
  cases read : request.program? with
  | none =>
      have undeclared : request.declared = [] := by
        simp only [Request.declared, read]
      rw [undeclared]
      obtain ⟨report, same⟩ | ⟨name, arity, operation, rfl⟩ := answer_of_malformed budget read
      · rw [same]
        exact ⟨rfl, atRest.atTop, atRest.atTop, atRest.settled, .refl _⟩
      · cases answered
  | some program =>
      have declared : request.declared = declaredBy program.statements := by
        simp only [Request.declared, read]
      have unbound := Request.unbound_of_program? read
      rw [answer_of_program? budget read] at answered ⊢
      rw [declared]
      by_cases accepted : (session.resolver.resolve program).errors = []
      · rw [execute_of_accepted budget accepted] at answered
        obtain rfl := Option.some.inj answered
        exact absurd rejected (status_reportOn_ne _ _)
      · rw [execute_of_rejected budget accepted]
        exact ⟨rfl, overlays_resolve atRest.atTop atRest.settled unbound⟩

/-- The names that the program of the request reads in their own initializers, of those
that are known to a stained session alone. -/
def exposed (names : List String) (request : Request) (session : Session) : List String :=
  match request.program? with
  | none => []
  | some program =>
      (selfReadsOf program.statements).filter fun name =>
        name ∈ names ∧ session.resolver.globals.find? name = none

/-- Some request reads one of the names in its own initializer before any has declared it. -/
def Exposes (names : List String) (budget : Nat) : List Request → Session → Prop
  | [], _ => False
  | request :: rest, session =>
      session.exposed names request ≠ [] ∨
        Exposes names budget rest (session.answer budget request).2

instance decidableExposes (names : List String) (budget : Nat) :
    (requests : List Request) → (session : Session) →
      Decidable (Exposes names budget requests session)
  | [], _ => inferInstanceAs (Decidable False)
  | request :: rest, session =>
      have := decidableExposes names budget rest (session.answer budget request).2
      inferInstanceAs (Decidable (_ ≠ [] ∨ Exposes names budget rest _))

theorem exposed_eq_nil_iff {request : Request} {program : Program}
    (read : request.program? = some program) :
    session.exposed names request = [] ↔
      ∀ name ∈ selfReadsOf program.statements, name ∈ names →
        session.resolver.globals.find? name ≠ none := by
  simp only [exposed, read, List.filter_eq_nil_iff, decide_eq_true_eq, not_and]

theorem Stained.execute (stain : Stained names session stained) {program : Program}
    (unbound : unboundStmts program.statements) (budget : Nat)
    (same : (stained.resolver.resolve program).errors = (session.resolver.resolve program).errors) :
    (stained.execute budget program).1 = (session.execute budget program).1 ∧
      Stained names (session.execute budget program).2 (stained.execute budget program).2 := by
  obtain ⟨found, resolver, _, _⟩ := stain.resolver.resolve unbound
  by_cases accepted : (session.resolver.resolve program).errors = []
  · rw [execute_of_accepted budget accepted, execute_of_accepted budget (same.trans accepted),
      found, stain.world]
    exact ⟨rfl, rfl, resolver⟩
  · rw [execute_of_rejected budget accepted, execute_of_rejected budget (same ▸ accepted), same]
    exact ⟨rfl, stain.world, resolver⟩

/-- Where complaints are missing, the reports differ. -/
theorem Stained.execute_ne (stain : Stained names session stained) {program : Program}
    (unbound : unboundStmts program.statements) (budget : Nat)
    (differ : (stained.resolver.resolve program).errors ≠
      (session.resolver.resolve program).errors) :
    (stained.execute budget program).1 ≠ (session.execute budget program).1 := by
  obtain ⟨_, _, part, _⟩ := stain.resolver.resolve unbound
  have rejected : (session.resolver.resolve program).errors ≠ [] := by
    intro none
    rw [none] at part differ
    exact differ (List.eq_nil_of_sublist_nil part)
  rw [execute_of_rejected budget rejected]
  intro same
  -- Either nothing is complained about and the program runs, or there is less to report.
  by_cases accepted : (stained.resolver.resolve program).errors = []
  · rw [execute_of_accepted budget accepted] at same
    exact status_reportOn_ne _ _ (congrArg Report.status same)
  · rw [execute_of_rejected budget accepted] at same
    have lengths := congrArg List.length (congrArg Report.diagnostics same)
    rw [List.length_map, List.length_map] at lengths
    exact differ (part.eq_of_length lengths)

theorem Stained.answer (stain : Stained names session stained) (budget : Nat) {request : Request}
    (hidden : session.exposed names request = []) :
    (stained.answer budget request).1 = (session.answer budget request).1 ∧
      Stained names (session.answer budget request).2 (stained.answer budget request).2 := by
  cases read : request.program? with
  | none =>
      obtain ⟨report, same⟩ | ⟨name, arity, operation, rfl⟩ := answer_of_malformed budget read
      · rw [same, same]
        exact ⟨rfl, stain⟩
      · exact ⟨rfl, congrArg (World.defineNative · name arity operation) stain.world,
          stain.resolver.defineGlobal name⟩
  | some program =>
      have unbound := Request.unbound_of_program? read
      obtain ⟨_, _, _, alike⟩ := stain.resolver.resolve unbound
      obtain ⟨report, after⟩ :=
        stain.execute unbound budget (alike.mpr ((exposed_eq_nil_iff read).mp hidden))
      rw [answer_of_program? budget read, answer_of_program? budget read, report]
      exact ⟨rfl, after⟩

theorem Stained.answer_ne (stain : Stained names session stained) (budget : Nat)
    {request : Request} (shown : session.exposed names request ≠ []) :
    (stained.answer budget request).1 ≠ (session.answer budget request).1 := by
  cases read : request.program? with
  | none => exact absurd (by simp only [exposed, read]) shown
  | some program =>
      have unbound := Request.unbound_of_program? read
      obtain ⟨_, _, _, alike⟩ := stain.resolver.resolve unbound
      have differ := mt alike.mp (mt (exposed_eq_nil_iff read).mpr shown)
      rw [answer_of_program? budget read, answer_of_program? budget read]
      exact fun same => stain.execute_ne unbound budget differ (Option.some.inj same)

/-- Answers and values are the same until a request reads one of the names. -/
theorem Stained.serve_iff (stain : Stained names session stained) (budget : Nat)
    (requests : List Request) :
    ((serve (Session.answer budget) requests stained).1 =
          (serve (Session.answer budget) requests session).1 ∧
        (serve (Session.answer budget) requests stained).2.world =
          (serve (Session.answer budget) requests session).2.world) ↔
      ¬ Exposes names budget requests session := by
  induction requests generalizing session stained with
  | nil => simpa [serve, Exposes] using stain.world
  | cons request rest inductionHypothesis =>
      simp only [serve, Exposes, List.cons.injEq, not_or, Classical.not_not]
      by_cases hidden : session.exposed names request = []
      · obtain ⟨same, after⟩ := stain.answer budget hidden
        rw [and_assoc, inductionHypothesis after]
        simp only [same, hidden, true_and]
      · have differ := stain.answer_ne budget hidden
        simp only [differ, hidden, false_and]

/-- Behind a rejected request, answers and values are as if it had not been made exactly
if no later program reads one of its names in its own initializer too early. -/
theorem serve_after_rejected_iff (callLimit : Nat) (outlet : Outlet) (clock : Clock) (budget : Nat)
    (earlier : List Request) {request : Request} {report : Report}
    (answered : ((serve (answer budget) earlier (new callLimit outlet clock)).2.answer
      budget request).1 = some report)
    (rejected : report.status = .staticError) (later : List Request) :
    let session := (serve (answer budget) earlier (new callLimit outlet clock)).2
    let after := (session.answer budget request).2
    ((serve (answer budget) later after).1 = (serve (answer budget) later session).1 ∧
        (serve (answer budget) later after).2.world =
          (serve (answer budget) later session).2.world) ↔
      ¬ Exposes request.declared budget later session := by
  have atRest := (atRest_new callLimit outlet clock).serve budget earlier
  exact (atRest.stained_of_rejected answered rejected).serve_iff budget later

/-- A global whose initializer reads it. -/
def selfRead : Request := .run "var a = a;"

/-- What is said of it where it is not known. -/
def selfReadReport : Report :=
  ⟨.staticError, [(BindingError.mk .ownInitializer "a" ⟨1, 9, 1⟩).diagnostic], ""⟩

/-- A second attempt is no longer rejected. -/
theorem selfRead_again_differs :
    let session := new 2048 .working (.still 0)
    let after := (session.answer 100 selfRead).2
    (session.answer 100 selfRead).1 = some selfReadReport ∧
      (serve (answer 100) [selfRead] after).1 ≠ (serve (answer 100) [selfRead] session).1 := by
  decide +kernel

/-- A program that gives the name a value is answered alike. -/
theorem selfRead_assigned_alike :
    let session := (serve (answer 100) [.run "print nil;"] (new 2048 .working (.still 0))).2
    let after := (session.answer 100 selfRead).2
    (serve (answer 100) [.run "var a = true; print a;"] after).1 =
        (serve (answer 100) [.run "var a = true; print a;"] session).1 ∧
      (serve (answer 100) [.run "var a = true; print a;"] after).2.world =
        (serve (answer 100) [.run "var a = true; print a;"] session).2.world := by
  have answered : ((serve (answer 100) [.run "print nil;"] (new 2048 .working (.still 0))).2.answer 100
      selfRead).1 = some selfReadReport := by
    decide +kernel
  exact (serve_after_rejected_iff 2048 .working (.still 0) 100 _ answered rfl _).mpr (by decide +kernel)

end Session

end Lox
