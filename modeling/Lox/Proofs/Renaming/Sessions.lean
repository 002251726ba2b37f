import Lox.Proofs.Places.Entries
import Lox.Proofs.Renaming.Binding
import Lox.Proofs.Spelling.Blurred
import Lox.Syntax.Outline

/-!
Contract: the names of local variables do not matter.

Take a program that is accepted, a parameter or local variable in it, and a fresh name. The program
in which the fresh name stands for the variable, in its declaration and in the uses that are bound
to it, is accepted with the same addresses. Without the names of local variables the two bound
programs are one, and so they run alike. It does not matter either where the other program stands,
so that the fresh name may be longer or shorter.

The natives must not tell the names of local variables, nor places.

Main statement: `Session.localNames_irrelevant`.

Owns: sessions between two programs, and renamed programs in them. Does not own: the single stages.
-/

set_option autoImplicit false

namespace Lox

open Binding

theorem Spelling.blurs_nameless : Spelling.nameless.Blurs := ⟨rfl, rfl⟩

namespace Session

variable {session : Session}

/-! ## Between two programs -/

/-- The session is between two programs. -/
structure Between (session : Session) : Prop where
  resolver : AtTop session.resolver
  world : session.world.atTopLevel = session.world

theorem between_new (callLimit : Nat) (outlet : Outlet) (clock : Clock) :
    (new callLimit outlet clock).Between where
  resolver := (atRest_new callLimit outlet clock).atTop
  world := rfl

theorem Between.execute (between : session.Between) (budget : Nat) (program : Program) :
    (session.execute budget program).2.Between := by
  refine ⟨?_, ?_⟩
  · rw [resolver_execute]
    exact between.resolver.resolve program
  · by_cases accepted : (session.resolver.resolve program).errors = []
    · rw [execute_of_accepted budget accepted]
      have cleared : session.world.clearOutput.atTopLevel = session.world.clearOutput :=
        congrArg World.clearOutput between.world
      exact World.atTopLevel_interpret budget _ cleared
    · rw [execute_of_rejected budget accepted]
      exact between.world

theorem Between.answer (between : session.Between) (budget : Nat) (request : Request) :
    (session.answer budget request).2.Between := by
  cases read : request.program? with
  | none =>
      obtain ⟨report, same⟩ | ⟨name, arity, operation, rfl⟩ := answer_of_malformed budget read
      · rw [same]
        exact between
      · refine ⟨between.resolver.defineGlobal name, ?_⟩
        obtain ⟨scope, depth⟩ := World.atTopLevel_eq_self_iff.mp between.world
        exact World.atTopLevel_eq_self_iff.mpr ⟨scope, depth⟩
  | some program =>
      rw [answer_of_program? budget read]
      exact between.execute budget program

/-- A session is between two programs whatever requests it has served. -/
theorem Between.serve (between : session.Between) (budget : Nat) (requests : List Request) :
    (serve (Session.answer budget) requests session).2.Between := by
  induction requests generalizing session with
  | nil => exact between
  | cons request rest inductionHypothesis =>
      exact inductionHypothesis (between.answer budget request)

/-! ## Renamed programs -/

/-- Bound programs that are one but for the names of local variables do the same. -/
theorem reportOn_of_nameless (between : session.Between)
    (overlooks : session.world.Overlooks .nameless) (budget : Nat) {stmts others : List Stmt}
    (same : respelledStmts .nameless false stmts = respelledStmts .nameless false others) :
    let ran := session.world.clearOutput.interpret budget stmts
    let ranOther := session.world.clearOutput.interpret budget others
    reportOn ranOther.1 ranOther.2.output = reportOn ran.1 ran.2.output := by
  intro ran ranOther
  obtain ⟨scope, depth⟩ := World.atTopLevel_eq_self_iff.mp between.world
  have blurred (stmts : List Stmt) :
      (session.world.clearOutput.respelled (.blurred .nameless)).interpret budget
          (respelledStmts .nameless false stmts) =
        ((session.world.clearOutput.interpret budget stmts).1.moved id,
          (session.world.clearOutput.interpret budget stmts).2.respelled (.blurred .nameless)) := by
    have here : session.world.clearOutput.Overlooks .nameless := overlooks
    have outside : session.world.clearOutput.scope.isSome = false := by
      rw [show session.world.clearOutput.scope = session.world.scope from rfl, scope]
      rfl
    have within : session.world.clearOutput.callDepth ≤ session.world.clearOutput.callLimit := by
      rw [show session.world.clearOutput.callDepth = session.world.callDepth from rfl, depth]
      exact Nat.zero_le _
    rw [← outside]
    exact here.interpret Spelling.blurs_nameless (.inr within) budget stmts
  have both := blurred stmts
  rw [same, blurred others] at both
  obtain ⟨verdicts, worlds⟩ := Prod.mk.inj both
  have unmoved (verdict : Verdict) : verdict.moved id = verdict := by
    cases verdict <;> rfl
  rw [unmoved, unmoved] at verdicts
  have outputs : ranOther.2.output = ran.2.output := by
    rw [← World.output_blurred .nameless, ← World.output_blurred .nameless ran.2]
    exact congrArg World.output worlds
  rw [outputs]
  exact congrArg (reportOn · ran.2.output) verdicts

/-- The report on the renamed program is that on the program. -/
theorem report_renamed (between : session.Between)
    (overlooks : session.world.Overlooks .nameless) (budget : Nat) {program : Program}
    (unbound : unboundStmts program.statements)
    (accepted : (session.resolver.resolve program).errors = []) {naming : Renaming}
    (absent : naming.fresh ∉ program.variableNames) :
    (session.execute budget
        ((session.resolver.resolve program).program.renamed naming).cleared).1 =
      (session.execute budget program).1 := by
  have resolves := between.resolver.resolve_renamed unbound accepted absent
  have acceptedThere : (session.resolver.resolve
      ((session.resolver.resolve program).program.renamed naming).cleared).errors = [] := by
    rw [resolves]
  rw [execute_of_accepted budget acceptedThere, execute_of_accepted budget accepted, resolves]
  exact reportOn_of_nameless between overlooks budget
    (respelledStmts_renamedStmts naming []
      (session.resolver.resolve program).program.statements).symm

/-- Give a local variable of an accepted program a fresh name, in its declaration and in the uses
bound to it, and put the program anywhere. The program is accepted, with the same addresses: the
two bound programs are one but for places and the names of local variables. It is run to the same
status and with the same output, and reports the same, where the program was put or, if that comes
from an earlier program, where it was. -/
theorem localNames_irrelevant (between : session.Between)
    (overlooks : session.world.Overlooks .nameless) {line : Nat}
    (placeless : session.world.Placeless line) (budget : Nat) {program : Program}
    (unbound : unboundStmts program.statements)
    (accepted : (session.resolver.resolve program).errors = []) (naming : Renaming)
    (absent : naming.fresh ∉ program.variableNames) (move : Span → Span) :
    let bound := (session.resolver.resolve program).program
    let renamed := bound.renamed naming
    let other := renamed.cleared.moved move
    let report := (session.execute budget program).1
    let reportOther := (session.execute budget other).1
    bound.cleared = program ∧
      session.resolver.resolve other =
        ⟨renamed.moved move, [], (session.resolver.resolve program).resolver⟩ ∧
      respelledStmts .nameless false renamed.statements =
        respelledStmts .nameless false bound.statements ∧
      reportOther.status = report.status ∧ reportOther.output = report.output ∧
      (reportOther.diagnostics = report.diagnostics ∨
        reportOther.diagnostics = report.diagnostics.map (Diagnostic.moved move)) := by
  intro bound renamed other report reportOther
  have clean := between.resolver.errors
  have resolves : session.resolver.resolve renamed.cleared =
      ⟨renamed, [], (session.resolver.resolve program).resolver⟩ :=
    between.resolver.resolve_renamed unbound accepted absent
  have sameReport : (session.execute budget renamed.cleared).1 = report :=
    report_renamed between overlooks budget unbound accepted absent
  obtain ⟨status, output⟩ := status_output_moved placeless clean budget renamed.cleared move
  rw [sameReport] at status output
  refine ⟨cleared_bound session.resolver unbound, ?_, respelledStmts_renamedStmts naming [] _,
    status, output, ?_⟩
  · rw [Resolver.resolve_moved move clean, resolves]
    rfl
  · rw [← sameReport]
    rcases reportsText_or_reportsEarlier placeless clean budget renamed.cleared with
      text | ⟨earlier, _⟩
    · exact .inr (text move)
    · exact .inl (earlier move)

/-- A variable of a function, and another of the same name inside. -/
def shadowing : String :=
  "fun f(a) \x7b var b = a; \x7b var b = nil; print b; \x7d\n" ++
  "return fun () \x7b b = b + a; return b; \x7d; \x7d\nprint f(\"x\")();\nf(nil)();"

/-- The same a line further down, with another name for the first of the two. -/
def shadowingRenamed : String :=
  "// Not b.\nfun f(a) \x7b var c = a; \x7b var b = nil; print b; \x7d\n" ++
  "return fun () \x7b c = c + a; return c; \x7d; \x7d\nprint f(\"x\")();\nf(nil)();"

/-- The renaming of that variable. -/
def apart : Renaming := ⟨⟨"b", ⟨1, 16, 1⟩⟩, "c", by decide⟩

/-- The other source is read as the renamed program. Both print the same, and fail at the same
addition. -/
theorem localNames_irrelevant_shadowing :
    let session := new 2048 .working (.still 0)
    ∃ program, (ParsedSource.of shadowing).program = some program ∧
      let renamed := (session.resolver.resolve program).program.renamed apart
      let other := renamed.cleared.moved (Span.lowered 1)
      other.outline = ((ParsedSource.of shadowingRenamed).program.getD ⟨[]⟩).outline ∧
      session.resolver.resolve other = ⟨renamed.moved (Span.lowered 1), [],
        (session.resolver.resolve program).resolver⟩ ∧
      (session.execute 99 other).1.status = .runtimeError ∧
      (session.execute 99 other).1.output = "nil\nxx\nnil\n" ∧
      (session.execute 99 other).1.diagnostics =
        [⟨.runtime, ⟨3, 23, 1⟩, "", "Operands must be two numbers or two strings."⟩] := by
  intro session
  have between : session.Between := between_new 2048 .working (.still 0)
  have overlooks : session.world.Overlooks .nameless := by
    intro operation member
    have natives : session.world.natives = #[.clock (.still 0)] := rfl
    rw [natives] at member
    obtain rfl := List.mem_singleton.mp (Array.mem_toList_iff.mpr member)
    exact Operation.overlooks_clock _ _
  have placeless : session.world.Placeless 0 := (placeless_new 0 2048 (.still 0)).natives
  have reads : (ParsedSource.of shadowing).program.isSome = true := by decide +kernel
  -- What is known of the program that is read is found by running it.
  have known :
      let program := (ParsedSource.of shadowing).program.getD ⟨[]⟩
      let other := (((session.resolver.resolve program).program.renamed apart).cleared).moved
        (Span.lowered 1)
      (session.resolver.resolve program).errors = [] ∧ apart.fresh ∉ program.variableNames ∧
        (session.execute 99 program).1 = ⟨.runtimeError,
          [⟨.runtime, ⟨2, 23, 1⟩, "", "Operands must be two numbers or two strings."⟩],
          "nil\nxx\nnil\n"⟩ ∧
        other.outline = ((ParsedSource.of shadowingRenamed).program.getD ⟨[]⟩).outline ∧
        (session.execute 99 other).1.diagnostics ≠ (session.execute 99 program).1.diagnostics := by
    decide +kernel
  obtain ⟨program, read⟩ := Option.isSome_iff_exists.mp reads
  simp only [read, Option.getD_some] at known
  obtain ⟨accepted, absent, reported, outlines, elsewhere⟩ := known
  obtain ⟨_, resolves, _, status, output, places⟩ := localNames_irrelevant between overlooks
    placeless 99 (ParsedSource.unbound read) accepted apart absent (Span.lowered 1)
  have moved := places.resolve_left elsewhere
  rw [reported] at status output moved
  exact ⟨program, read, outlines, resolves, status, output, moved⟩

end Session

end Lox
