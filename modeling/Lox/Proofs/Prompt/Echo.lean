import Lox.Proofs.Grammar.BareExpression
import Lox.Proofs.Layout
import Lox.Proofs.Running.Base
import Lox.Proofs.Running.HigherLimit

/-!
Contract: a bare expression at the prompt is a print statement.

What is entered is echoed exactly if its tokens are an expression, and then it is run as these
tokens are between the word `print` and a semicolon. The two programs are one but for the place of
the statement, which shows only where output cannot be written.

Main statement: `Session.runEntry_echoes`.

Owns: programs of tokens, entries against programs. Does not own: how an expression is read.
-/

set_option autoImplicit false

namespace Lox

/-! ## The place of a print statement -/

namespace Machine

/-- What awaits the value of an expression that is printed by a statement at this place. -/
def printing (place : Span) : (awaited : Awaited) → Stack awaited
  | .value => .push (.print place) .empty
  | .flow => .empty

/-- Two machines have come equally far: they have the same world, and end alike but for the place of
a fault. -/
structure EquallyFar (one two : Machine) : Prop where
  verdict : (one.verdict.moved fun _ => .nowhere) = two.verdict.moved fun _ => .nowhere
  world : one.world = two.world

variable (place other : Span)

theorem equallyFar_onto (machine : Machine) :
    EquallyFar (machine.onto (printing place)) (machine.onto (printing other)) := by
  cases machine with
  | evaluate => exact ⟨rfl, rfl⟩
  | execute => exact ⟨rfl, rfl⟩
  | answer => exact ⟨rfl, rfl⟩
  | finish world flow stack => cases stack <;> exact ⟨rfl, rfl⟩
  | @raise awaited world fault stack =>
      cases stack with
      | empty => cases awaited <;> exact ⟨rfl, rfl⟩
      | push frame rest => exact ⟨rfl, rfl⟩

/-- One step behind the end of the expression the statement has ended. -/
theorem equallyFar_run_of_isDone {machine : Machine} (done : machine.isDone = true) (steps : Nat) :
    EquallyFar ((machine.onto (printing place)).run steps)
      ((machine.onto (printing other)).run steps) := by
  cases steps with
  | zero => exact equallyFar_onto place other machine
  | succ steps =>
      unfold isDone at done
      split at done
      · next world found =>
          simp only [onto, Stack.onto, printing, run, isDone, next, giveValue, World.printFault?,
            Bool.false_eq_true, ↓reduceIte]
          cases world.sink.writeFailure with
          | none => exact ⟨rfl, rfl⟩
          | some reason =>
              simp only [Option.map_some]
              rw [run_of_isDone rfl, run_of_isDone rfl]
              exact ⟨rfl, rfl⟩
      · exact ⟨rfl, rfl⟩
      · next awaited world fault =>
          cases awaited with
          | flow => exact ⟨rfl, rfl⟩
          | value =>
              have thrown (span : Span) : (Machine.raise world fault
                  (Stack.onto (printing span) (.empty : Stack .value))).run (steps + 1) =
                    .raise world fault (.empty : Stack .flow) :=
                run_of_isDone rfl steps
              simp only [onto, thrown]
              exact ⟨rfl, rfl⟩
      · cases done

theorem equallyFar_run (machine : Machine) (steps : Nat) :
    EquallyFar ((machine.onto (printing place)).run steps)
      ((machine.onto (printing other)).run steps) := by
  induction steps generalizing machine with
  | zero => exact equallyFar_onto place other machine
  | succ steps inductionHypothesis =>
      cases going : machine.isDone with
      | true => exact equallyFar_run_of_isDone place other going (steps + 1)
      | false =>
          simp only [run, isDone_onto _ going, next_onto _ going, Bool.false_eq_true, ↓reduceIte]
          exact inductionHypothesis machine.next

end Machine

namespace World

/-- The same expression is printed the same way by statements at any two places. -/
theorem interpret_print (budget : Nat) (world : World) (value : Expr) (place other : Span) :
    let ran := world.interpret budget [.print value place]
    let ranOther := world.interpret budget [.print value other]
    (ran.1.moved fun _ => .nowhere) = (ranOther.1.moved fun _ => .nowhere) ∧
      ran.2 = ranOther.2 := by
  have statement : Machine.EquallyFar (Machine.run budget (.execute world (.print value place) .empty))
      (Machine.run budget (.execute world (.print value other) .empty)) := by
    cases budget with
    | zero => exact ⟨rfl, rfl⟩
    | succ budget => exact Machine.equallyFar_run place other (.evaluate world value .empty) budget
  simp only [interpret, runStatement_eq]
  generalize Machine.run budget (.execute world (.print value place) .empty) = one at statement
  generalize Machine.run budget (.execute world (.print value other) .empty) = two at statement
  obtain ⟨verdict, worlds⟩ := statement
  rw [worlds]
  cases ended : one.verdict <;> cases endedOther : two.verdict <;>
    simp_all [Verdict.moved]

end World

namespace Session

/-- Runs the program that the tokens are, if they are one. -/
def runTokens (budget : Nat) (tokens : List Token) (session : Session) : Report × Session :=
  match Program.ofTokens tokens with
  | .ok program => session.execute budget program
  | .error errors => (⟨.staticError, errors.map SyntaxError.diagnostic, ""⟩, session)

variable (session : Session) (budget : Nat)

/-- A source without lexical errors is run as its tokens are. -/
theorem run_eq_runTokens {source : String} (clean : (Scan.of source).errors = []) :
    session.run budget source = session.runTokens budget (Scan.of source).tokens := by
  simp only [run, runTokens, ParsedSource.of, clean]
  cases Program.ofTokens (Scan.of source).tokens <;> rfl

/-- The program that prints an expression does so at any place. -/
theorem execute_print (value : Expr) (place other : Span) :
    EndAlike (session.execute budget ⟨[.print value place]⟩)
      (session.execute budget ⟨[.print value other]⟩) := by
  obtain ⟨bound, errors, resolver, resolves⟩ : ∃ bound errors resolver, ∀ place : Span,
      session.resolver.resolve ⟨[.print value place]⟩ = ⟨⟨[.print bound place]⟩, errors, resolver⟩ :=
    ⟨(value.resolve.run session.resolver).1, _, _, fun place => rfl⟩
  obtain ⟨verdicts, worlds⟩ :=
    World.interpret_print budget session.world.clearOutput bound place other
  simp only [execute, resolves]
  cases errors with
  | cons first rest => exact ⟨rfl, rfl, rfl, ⟨rfl, rfl⟩⟩
  | nil =>
      simp only [worlds]
      refine endAlike_of_shape ?_ ⟨rfl, rfl⟩
      simp only [Report.shape, ← reportOn_moved, verdicts]

variable {source : String}

theorem runEntry_of_expression (clean : (Scan.of source).errors = []) {expr : Expr}
    (read : Expr.ofTokens (Scan.of source).tokens = .ok expr) :
    session.runEntry budget source = session.execute budget (.printing expr) := by
  simp [runEntry, bareExpression?, clean, read, Except.toOption]

theorem runEntry_of_none (none : ∀ expr, Expr.ofTokens (Scan.of source).tokens ≠ .ok expr) :
    session.runEntry budget source = session.run budget source := by
  have absent : bareExpression? source = Option.none := by
    simp only [bareExpression?]
    split
    · cases read : Expr.ofTokens (Scan.of source).tokens with
      | ok expr => exact absurd read (none expr)
      | error errors => simp [Except.toOption]
    · rfl
  simp only [runEntry, absent]

/-- Tokens are read as a bare expression exactly if they are the expression in a statement of it, and
exactly if they are the expression in a statement that prints it; and then they are no program. So
an entry whose tokens are an expression is run as the statement that prints it, and is not accepted
as a source; and every other entry is run as a source. -/
theorem runEntry_echoes {tokens : List Token} {word mark : Token}
    (meaningful : ∀ token ∈ tokens, Grammar.Meaningful token)
    (prints : word.kind = .keyword .print) (ends : mark.kind = .symbol .semicolon) :
    (∀ expr, Expr.ofTokens tokens = .ok expr ↔
      ∃ span, Program.ofTokens (tokens ++ [mark]) = .ok ⟨[.expression expr span]⟩) ∧
    (∀ expr, Expr.ofTokens tokens = .ok expr ↔
      Program.ofTokens (word :: (tokens ++ [mark])) = .ok ⟨[.print expr word.span]⟩) ∧
    (∀ expr program, Expr.ofTokens tokens = .ok expr → Program.ofTokens tokens ≠ .ok program) ∧
    ∀ (session : Session) (budget : Nat) (source : String), (Scan.of source).errors = [] →
      (Grammar.Text.of (Scan.of source).tokens).tokens = tokens →
      (∀ expr, Expr.ofTokens tokens = .ok expr →
        EndAlike (session.runEntry budget source)
            (session.runTokens budget (word :: (tokens ++ [mark]))) ∧
          (session.run budget source).1.status = .staticError) ∧
      ((∀ expr, Expr.ofTokens tokens ≠ .ok expr) →
        session.runEntry budget source = session.run budget source) := by
  have marked : ∀ token ∈ tokens ++ [mark], Grammar.Meaningful token := by
    intro token member
    obtain member | member := List.mem_append.mp member
    · exact meaningful token member
    · rw [List.mem_singleton.mp member, Grammar.Meaningful, ends]
      exact ⟨rfl, rfl⟩
  have worded : ∀ token ∈ word :: (tokens ++ [mark]), Grammar.Meaningful token := by
    rintro token (_ | ⟨_, member⟩)
    · rw [Grammar.Meaningful, prints]
      exact ⟨rfl, rfl⟩
    · exact marked token member
  have isExpression (expr : Expr) :
      Expr.ofTokens tokens = .ok expr ↔ Grammar.Derives .expression tokens expr := by
    rw [Expr.ofTokens_ok_iff, Grammar.Text.tokens_of_meaningful meaningful]
  have isPrinted (expr : Expr) : Expr.ofTokens tokens = .ok expr ↔
      Program.ofTokens (word :: (tokens ++ [mark])) = .ok ⟨[.print expr word.span]⟩ := by
    rw [isExpression, Program.ofTokens_ok_iff, Grammar.Text.tokens_of_meaningful worded]
    exact (Grammar.Derives.closed_iff_print prints ends).symm
  have noProgram (expr : Expr) (program : Program) (read : Expr.ofTokens tokens = .ok expr) :
      Program.ofTokens tokens ≠ .ok program := by
    rw [Ne, Program.ofTokens_ok_iff, Grammar.Text.tokens_of_meaningful meaningful]
    exact ((isExpression expr).mp read).not_program_of_expression
  refine ⟨?_, isPrinted, noProgram, ?_⟩
  · intro expr
    simp only [isExpression, Program.ofTokens_ok_iff, Grammar.Text.tokens_of_meaningful marked]
    exact (Grammar.Derives.closed_iff_expression ends).symm
  · intro session budget source clean same
    have alike (expr : Expr) :
        Expr.ofTokens (Scan.of source).tokens = .ok expr ↔ Expr.ofTokens tokens = .ok expr := by
      rw [Expr.ofTokens_ok_iff, same, isExpression]
    refine ⟨?_, ?_⟩
    · intro expr read
      refine ⟨?_, ?_⟩
      · rw [runEntry_of_expression session budget clean ((alike expr).mpr read)]
        simp only [runTokens, (isPrinted expr).mp read]
        exact session.execute_print budget expr expr.span word.span
      · rw [run_eq_runTokens session budget clean]
        cases accepted : Program.ofTokens (Scan.of source).tokens with
        | error errors => simp only [runTokens, accepted]
        | ok program =>
            have here := Program.ofTokens_ok_iff.mp accepted
            rw [same] at here
            exact absurd here ((isExpression expr).mp read).not_program_of_expression
    · intro none
      exact runEntry_of_none session budget fun expr read => none expr ((alike expr).mp read)

/-- A function without a name, and its call. -/
def calledLambda : String := "fun (text) \x7b return text; \x7d(\"echo\") // called"

/-- The call of a function that contains a statement is entered, and its value printed. -/
theorem runEntry_echoes_calledLambda :
    let word (kind : Token.Kind) : Token := ⟨kind, "", .nowhere⟩
    let tokens := (Grammar.Text.of (Scan.of calledLambda).tokens).tokens
    let session := Session.new 2048 .working (.still 0)
    EndAlike (session.runEntry 30 calledLambda) (session.runTokens 30
        (word (.keyword .print) :: (tokens ++ [word (.symbol .semicolon)]))) ∧
      (session.runEntry 30 calledLambda).1.output = "echo\n" ∧
      (session.run 30 calledLambda).1.status = .staticError := by
  intro word tokens session
  have clean : (Scan.of calledLambda).errors = [] := by decide +kernel
  have isExpression : (Expr.ofTokens tokens).toOption.isSome = true := by decide +kernel
  obtain ⟨expr, read⟩ : ∃ expr, Expr.ofTokens tokens = .ok expr := by
    cases found : Expr.ofTokens tokens with
    | ok expr => exact ⟨expr, rfl⟩
    | error errors => simp [found, Except.toOption] at isExpression
  obtain ⟨_, _, _, entered⟩ :=
    @runEntry_echoes tokens (word (.keyword .print)) (word (.symbol .semicolon))
      (fun _ member => Grammar.Text.meaningful_of_mem member) rfl rfl
  obtain ⟨alike, rejected⟩ := (entered session 30 calledLambda clean rfl).1 expr read
  exact ⟨alike, by decide +kernel, rejected⟩

end Session

end Lox
