import Lox.Proofs.Binding.Visited

/-!
Contract: the order of the diagnostics of one stage.

Lexical errors come as they stand in the source. Syntax errors do unless the target of an
assignment is invalid and there is a note in its value, and binding errors do unless there are
some on both sides of a crossing.

Main statement: `Session.diagnostics_inOrder_iff`.

Owns: the diagnostics of a stage. Does not own: the order of the stages.
-/

set_option autoImplicit false

namespace Lox

open Grammar

/-- Where diagnostics of this stage stand. -/
def spansAt (stage : Stage) (diagnostics : List Diagnostic) : List Span :=
  (diagnostics.filter fun diagnostic => diagnostic.stage = stage).map Diagnostic.span

/-- Where the diagnostics of one stage stand, in the order in which they are reported. -/
def Report.spansOf (stage : Stage) (report : Report) : List Span := spansAt stage report.diagnostics

section Stages

variable {stage : Stage}

theorem spansAt_append (first second : List Diagnostic) :
    spansAt stage (first ++ second) = spansAt stage first ++ spansAt stage second := by
  rw [spansAt, List.filter_append, List.map_append]
  rfl

/-- Errors of one kind are all found in one stage. -/
theorem spansAt_map {Error : Type} {diagnostic : Error → Diagnostic} {place : Error → Span}
    {own : Stage} (errors : List Error)
    (kind : ∀ error, (diagnostic error).stage = own ∧ (diagnostic error).span = place error) :
    spansAt stage (errors.map diagnostic) = if own = stage then errors.map place else [] := by
  induction errors with
  | nil => simp [spansAt]
  | cons error rest inductionHypothesis =>
      obtain ⟨found, there⟩ := kind error
      have single : spansAt stage [diagnostic error] =
          if own = stage then [place error] else [] := by
        by_cases same : own = stage <;> simp [spansAt, found, there, same]
      rw [List.map_cons, ← List.singleton_append, spansAt_append, single, inductionHypothesis]
      split <;> rfl

theorem spansAt_lexical (errors : List ScanError) :
    spansAt stage (errors.map ScanError.diagnostic) =
      if .scan = stage then errors.map ScanError.span else [] :=
  spansAt_map errors fun _ => ⟨rfl, rfl⟩

theorem spansAt_syntactic (errors : List SyntaxError) :
    spansAt stage (errors.map SyntaxError.diagnostic) =
      if .parse = stage then errors.map SyntaxError.span else [] :=
  spansAt_map errors fun _ => ⟨rfl, rfl⟩

theorem spansAt_binding (errors : List BindingError) :
    spansAt stage (errors.map BindingError.diagnostic) =
      if .resolve = stage then errors.map BindingError.span else [] :=
  spansAt_map errors fun _ => ⟨rfl, rfl⟩

/-- What is wrong with a text are lexical errors first, and then syntax errors. -/
theorem spansAt_textErrors (source : String) :
    spansAt stage (textErrors source) =
      (if .scan = stage then (Scan.of source).errors.map ScanError.span else []) ++
        if .parse = stage then
          (Program.syntaxErrors (Scan.of source).tokens).map SyntaxError.span
        else [] := by
  rw [textErrors, spansAt_append, spansAt_lexical, spansAt_syntactic]

end Stages

namespace Session

variable {session : Session}

/-- A program that is run is complained of before only for its names. -/
theorem spansOf_execute (budget : Nat) (program : Program) (stage : Stage)
    (static : stage ≠ .runtime) (ordinary : stage ≠ .fatal) :
    (session.execute budget program).1.spansOf stage =
      if .resolve = stage then (session.resolver.resolve program).errors.map BindingError.span
      else [] := by
  by_cases accepted : (session.resolver.resolve program).errors = []
  · rw [execute_of_accepted budget accepted, accepted, List.map_nil, ite_self]
    cases (World.interpret budget (session.resolver.resolve program).program.statements
        session.world.clearOutput).1 with
    | failed fault =>
        have late : fault.diagnostic.stage ≠ stage := by
          unfold Fault.diagnostic
          split
          · exact ordinary.symm
          · exact static.symm
        show spansAt stage [fault.diagnostic] = []
        simp [spansAt, late]
    | completed => rfl
    | unfinished => rfl
  · rw [execute_of_rejected budget accepted]
    exact spansAt_binding _

/-- The diagnostics of a run come in the order of the source, stage by stage: lexical errors
always; syntax errors exactly if nothing is noted in the value of an assignment whose target is
complained of; binding errors exactly if none of the crossings of the program has some on both of
its sides. -/
theorem diagnostics_inOrder_iff (budget : Nat) {session : Session}
    (clean : session.resolver.errors = []) (source : String) :
    let report := (session.run budget source).1
    InOrder (report.spansOf .scan) ∧
    (InOrder (report.spansOf .parse) ↔
      ∀ equals after, equals :: after <:+ (Text.of (Scan.of source).tokens).tokens →
        ⟨.assignmentTarget, equals.span, .atLexeme equals.lexeme⟩ ∈
            Program.syntaxErrors (Scan.of source).tokens →
          (expression (boundFor after) after).notes = []) ∧
    (InOrder (report.spansOf .resolve) ↔
      ∀ program, (ParsedSource.of source).program = some program →
        ∀ crossing ∈ program.crossings, ¬ crossing.Struck (report.spansOf .resolve)) := by
  intro report
  have text := Scan.laid source
  cases read : (ParsedSource.of source).program with
  | none =>
      have reported : report = ⟨.staticError, textErrors source, ""⟩ := by
        simp only [report, run, read, ParsedSource.diagnostics_of]
      rw [reported]
      refine ⟨?_, ?_, iff_of_true ?_ fun program same => absurd same (by simp)⟩
      · show InOrder (spansAt .scan (textErrors source))
        rw [spansAt_textErrors, if_pos rfl, if_neg (by decide), List.append_nil]
        exact (Scan.errors_ascending source).inOrder
      · show InOrder (spansAt .parse (textErrors source)) ↔ _
        rw [spansAt_textErrors, if_neg (by decide), if_pos rfl, List.nil_append]
        exact Program.syntaxErrors_inOrder_iff text
      · show InOrder (spansAt .resolve (textErrors source))
        rw [spansAt_textErrors, if_neg (by decide), if_neg (by decide)]
        exact List.Pairwise.nil
  | some program =>
      obtain ⟨_, parsed⟩ := ParsedSource.program_of_eq_some_iff.mp read
      have reported : report = (session.execute budget program).1 := by
        simp only [report, run_of_program budget read]
      have syntactic : Program.syntaxErrors (Scan.of source).tokens = [] := by
        rw [Program.syntaxErrors, parsed]
      have scanned : (session.execute budget program).1.spansOf .scan = [] :=
        (spansOf_execute budget program .scan (by decide) (by decide)).trans (if_neg (by decide))
      have read : (session.execute budget program).1.spansOf .parse = [] :=
        (spansOf_execute budget program .parse (by decide) (by decide)).trans (if_neg (by decide))
      have bound : (session.execute budget program).1.spansOf .resolve =
          (session.resolver.resolve program).errors.map BindingError.span :=
        (spansOf_execute budget program .resolve (by decide) (by decide)).trans (if_pos rfl)
      rw [reported, scanned, read, bound, syntactic]
      refine ⟨List.Pairwise.nil, iff_of_true List.Pairwise.nil fun _ _ _ noted =>
        absurd noted List.not_mem_nil, ?_⟩
      have derives := Program.derives_of_ofTokens parsed
      have ascending := (List.pairwise_append.mp text).1
      rw [Resolver.errors_inOrder_iff clean derives ascending]
      exact ⟨fun clear _ same => Option.some.inj same ▸ clear, fun clear => clear program rfl⟩

/-- The value of a property is bound before its object: each side of the crossing is struck. -/
theorem propertyOfSuper_not_inOrder :
    let report := ((new 10 .working (.still 0)).run 1 "super.a.b = this;").1
    ¬ InOrder (report.spansOf .resolve) ∧
      ∃ program, (ParsedSource.of "super.a.b = this;").program = some program ∧
        ∃ crossing ∈ program.crossings, crossing.Struck (report.spansOf .resolve) := by
  intro report
  have reversed : ¬ InOrder (report.spansOf .resolve) := by decide +kernel
  have exactly :=
    (diagnostics_inOrder_iff 1 (rfl : (new 10 .working (.still 0)).resolver.errors = [])
      "super.a.b = this;").2.2
  refine ⟨reversed, ?_⟩
  simpa only [not_forall, not_not, exists_prop] using mt exactly.mpr reversed

/-- Of two invalid assignments, one in the value of the other, the inner one is reported first. -/
theorem invalidTargets_not_inOrder :
    ¬ InOrder (((Session.new 10 .working (.still 0)).run 1 "1 = 2 = 3;").1.spansOf .parse) := by
  decide +kernel

end Session

end Lox
