import Lox.Proofs.Rejection

/-!
Contract: a report and what the request did.

The status of a report says what its diagnostics are and what the request has changed. What
is wrong with a source before it runs is wrong with its text, where lexical errors come
before syntax errors, or else with its names. A source with such errors changes no world. A
run that fails says so once.

At a prompt the attempt to read a bare expression leaves no trace where it fails.

Main statement: `Session.reports_agree`.

Owns: statuses, diagnostics and effects of reports. Does not own: what a run does.
-/

set_option autoImplicit false

namespace Lox

/-- The errors of a program among these tokens. -/
def Program.syntaxErrors (tokens : List Token) : List SyntaxError :=
  match Program.ofTokens tokens with
  | .ok _ => []
  | .error errors => errors

/-- What is wrong with the text of a source: lexical errors, and then syntax errors. -/
def textErrors (source : String) : List Diagnostic :=
  (Scan.of source).errors.map ScanError.diagnostic ++
    (Program.syntaxErrors (Scan.of source).tokens).map SyntaxError.diagnostic

/-- Reading does not fail without an error. -/
theorem Program.ofTokens_ne_error_nil (tokens : List Token) :
    Program.ofTokens tokens ≠ .error [] := by
  intro fails
  simp only [Program.ofTokens] at fails
  split at fails
  · cases fails
  · next present =>
      have none := List.map_eq_nil_iff.mp (Except.error.inj fails)
      exact present none

/-- Lexical errors come before syntax errors. -/
theorem stages_textErrors (source : String) :
    ∃ lexical syntactic, textErrors source = lexical ++ syntactic ∧
      (∀ diagnostic ∈ lexical, diagnostic.stage = .scan) ∧
      ∀ diagnostic ∈ syntactic, diagnostic.stage = .parse := by
  refine ⟨_, _, rfl, fun diagnostic member => ?_, fun diagnostic member => ?_⟩
  · obtain ⟨error, _, rfl⟩ := List.mem_map.mp member
    rfl
  · obtain ⟨error, _, rfl⟩ := List.mem_map.mp member
    rfl

namespace ParsedSource

variable {source : String}

/-- A parsed source holds what is wrong with its text, and the program of its tokens unless
anything is. -/
theorem of_eq (source : String) :
    ParsedSource.of source =
      ⟨if (textErrors source).isEmpty then (Program.ofTokens (Scan.of source).tokens).toOption
        else none, textErrors source⟩ := by
  cases read : Program.ofTokens (Scan.of source).tokens with
  | ok program => simp [ParsedSource.of, textErrors, Program.syntaxErrors, read, Except.toOption]
  | error errors => simp [ParsedSource.of, textErrors, Program.syntaxErrors, read, Except.toOption]

theorem diagnostics_of (source : String) :
    (ParsedSource.of source).diagnostics = textErrors source := by
  rw [of_eq]

/-- A source has the program of its tokens, if it has no lexical errors. -/
theorem program_of_eq_some_iff {program : Program} :
    (ParsedSource.of source).program = some program ↔
      (Scan.of source).errors = [] ∧ Program.ofTokens (Scan.of source).tokens = .ok program := by
  rw [of_eq]
  cases read : Program.ofTokens (Scan.of source).tokens with
  | ok found => simp [textErrors, Program.syntaxErrors, read, Except.toOption]
  | error errors => simp [Except.toOption]

/-- A source has a program exactly if nothing is wrong with its text. -/
theorem program_of_eq_none_iff :
    (ParsedSource.of source).program = none ↔ textErrors source ≠ [] := by
  rw [of_eq]
  cases read : Program.ofTokens (Scan.of source).tokens with
  | ok found => simp [Except.toOption]
  | error errors =>
      have present : errors ≠ [] := by
        rintro rfl
        exact Program.ofTokens_ne_error_nil _ read
      simp [textErrors, Program.syntaxErrors, read, present]

end ParsedSource

/-- What is wrong with the text of an entry at a prompt: nothing with a bare expression. -/
def entryErrors (source : String) : List Diagnostic :=
  match bareExpression? source with
  | some _ => []
  | none => textErrors source

/-- What a report on a source promises. It is given what is wrong with the text, and the
worlds before and behind. -/
structure Report.Agrees (text : List Diagnostic) (before after : World) (report : Report) :
    Prop where
  ok : report.status = .ok → report.diagnostics = []
  runtimeError : report.status = .runtimeError →
    ∃ diagnostic, report.diagnostics = [diagnostic] ∧ diagnostic.stage = .runtime
  fatal : report.status = .fatal →
    ∃ diagnostic, report.diagnostics = [diagnostic] ∧ diagnostic.stage = .fatal
  unfinished : report.status = .unfinished → report.diagnostics = []
  /-- Something is wrong, and nothing has been done. -/
  staticError : report.status = .staticError →
    report.diagnostics ≠ [] ∧ report.output = "" ∧ after = before
  /-- What is wrong is wrong with the text, or else with the names. -/
  stages : report.status = .staticError →
    (∃ lexical syntactic, report.diagnostics = lexical ++ syntactic ∧
      (∀ diagnostic ∈ lexical, diagnostic.stage = .scan) ∧
      ∀ diagnostic ∈ syntactic, diagnostic.stage = .parse) ∨
    ∀ diagnostic ∈ report.diagnostics, diagnostic.stage = .resolve
  /-- What is wrong with the text is what is reported. -/
  text : text ≠ [] → report.status = .staticError ∧ report.diagnostics = text

namespace Session

variable {session : Session}

/-- A run that fails says so once, and any other says nothing. -/
theorem reportOn_says (verdict : Verdict) (output : String) :
    (reportOn verdict output).diagnostics = [] ∧
        ((reportOn verdict output).status = .ok ∨ (reportOn verdict output).status = .unfinished) ∨
      ∃ diagnostic, (reportOn verdict output).diagnostics = [diagnostic] ∧
        ((reportOn verdict output).status = .runtimeError ∧ diagnostic.stage = .runtime ∨
          (reportOn verdict output).status = .fatal ∧ diagnostic.stage = .fatal) := by
  cases verdict with
  | completed => exact .inl ⟨rfl, .inl rfl⟩
  | unfinished => exact .inl ⟨rfl, .inr rfl⟩
  | failed fault =>
      refine .inr ⟨fault.diagnostic, rfl, ?_⟩
      cases fatal : fault.isFatal <;> simp [reportOn, Fault.diagnostic, fatal]

theorem agrees_reportOn (verdict : Verdict) (output : String) (before after : World) :
    (reportOn verdict output).Agrees [] before after := by
  have ran := status_reportOn_ne verdict output
  obtain ⟨silent, good⟩ | ⟨diagnostic, once, bad⟩ := reportOn_says verdict output
  · exact {
      ok := fun _ => silent
      unfinished := fun _ => silent
      runtimeError := fun failed => by simp [failed] at good
      fatal := fun failed => by simp [failed] at good
      staticError := fun rejected => absurd rejected ran
      stages := fun rejected => absurd rejected ran
      text := fun wrong => absurd rfl wrong }
  · exact {
      ok := fun good => by simp [good] at bad
      unfinished := fun good => by simp [good] at bad
      runtimeError := fun failed => ⟨diagnostic, once, by simpa [failed] using bad⟩
      fatal := fun failed => ⟨diagnostic, once, by simpa [failed] using bad⟩
      staticError := fun rejected => absurd rejected ran
      stages := fun rejected => absurd rejected ran
      text := fun wrong => absurd rfl wrong }

/-- What is rejected is not run, and says what is wrong with it. -/
theorem agrees_rejected (world : World) {text diagnostics : List Diagnostic}
    (present : diagnostics ≠ [])
    (stages : (∃ lexical syntactic, diagnostics = lexical ++ syntactic ∧
        (∀ diagnostic ∈ lexical, diagnostic.stage = .scan) ∧
        ∀ diagnostic ∈ syntactic, diagnostic.stage = .parse) ∨
      ∀ diagnostic ∈ diagnostics, diagnostic.stage = .resolve)
    (same : text ≠ [] → diagnostics = text) :
    (Report.mk .staticError diagnostics "").Agrees text world world where
  ok := fun impossible => nomatch impossible
  unfinished := fun impossible => nomatch impossible
  runtimeError := fun impossible => nomatch impossible
  fatal := fun impossible => nomatch impossible
  staticError := fun _ => ⟨present, rfl, rfl⟩
  stages := fun _ => stages
  text := fun wrong => ⟨rfl, same wrong⟩

/-- A program whose text is well-formed is rejected for its names, or run. -/
theorem agrees_execute (session : Session) (budget : Nat) (program : Program) :
    (session.execute budget program).1.Agrees [] session.world
      (session.execute budget program).2.world := by
  by_cases accepted : (session.resolver.resolve program).errors = []
  · rw [execute_of_accepted budget accepted]
    exact agrees_reportOn _ _ _ _
  · rw [execute_of_rejected budget accepted]
    refine agrees_rejected session.world (by simpa using accepted) (.inr fun diagnostic member => ?_)
      fun wrong => absurd rfl wrong
    obtain ⟨error, _, rfl⟩ := List.mem_map.mp member
    rfl

theorem agrees_run (session : Session) (budget : Nat) (source : String) :
    (session.run budget source).1.Agrees (textErrors source) session.world
      (session.run budget source).2.world := by
  cases read : (ParsedSource.of source).program with
  | some program =>
      have clean : textErrors source = [] := by
        refine Decidable.byContradiction fun wrong => ?_
        rw [ParsedSource.program_of_eq_none_iff.mpr wrong] at read
        cases read
      simp only [run, read, clean]
      exact agrees_execute session budget program
  | none =>
      have wrong := ParsedSource.program_of_eq_none_iff.mp read
      simp only [run, read, ParsedSource.diagnostics_of]
      exact agrees_rejected session.world wrong (.inl (stages_textErrors source)) fun _ => rfl

/-- The status, the diagnostics and the effects of every report agree, whether a source is run
or entered at a prompt. An entry that is not a bare expression is run as any other source. -/
theorem reports_agree (session : Session) (budget : Nat) (source : String) :
    (session.run budget source).1.Agrees (textErrors source) session.world
        (session.run budget source).2.world ∧
      (session.runEntry budget source).1.Agrees (entryErrors source) session.world
        (session.runEntry budget source).2.world ∧
      (bareExpression? source = none →
        session.runEntry budget source = session.run budget source) := by
  have ran := agrees_run session budget source
  cases bare : bareExpression? source with
  | some expr =>
      refine ⟨ran, ?_, fun missing => nomatch missing⟩
      simp only [runEntry, entryErrors, bare]
      exact agrees_execute session budget (.printing expr)
  | none =>
      have same : session.runEntry budget source = session.run budget source := by
        simp only [runEntry, bare]
      refine ⟨ran, ?_, fun _ => same⟩
      rw [same]
      simpa only [entryErrors, bare] using ran

/-- Neither a bare expression nor a program: each error is reported once, the one of the
scanner first. -/
theorem reports_agree_brokenEntry :
    bareExpression? "print nil nil; @" = none ∧
      ((new 10 .working (.still 0)).runEntry 10 "print nil nil; @").1 =
        ((new 10 .working (.still 0)).run 10 "print nil nil; @").1 ∧
      ((new 10 .working (.still 0)).runEntry 10 "print nil nil; @").1.diagnostics =
        [⟨.scan, ⟨1, 16, 1⟩, "", "Unexpected character '@'."⟩,
          ⟨.parse, ⟨1, 11, 3⟩, " at 'nil'", "Expect ';' after value."⟩] := by
  have broken : bareExpression? "print nil nil; @" = none := by decide +kernel
  have texts : textErrors "print nil nil; @" =
      [⟨.scan, ⟨1, 16, 1⟩, "", "Unexpected character '@'."⟩,
        ⟨.parse, ⟨1, 11, 3⟩, " at 'nil'", "Expect ';' after value."⟩] := by
    decide +kernel
  obtain ⟨ran, _, same⟩ := reports_agree (new 10 .working (.still 0)) 10 "print nil nil; @"
  rw [same broken]
  exact ⟨broken, rfl, texts ▸ (ran.text (by rw [texts]; simp)).2⟩

end Session

end Lox
