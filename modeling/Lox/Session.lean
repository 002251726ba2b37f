import Lox.Binding.Resolver
import Lox.Diagnostic
import Lox.Grammar.Reading
import Lox.Lexeme.Stream
import Lox.Machine.Interpret

/-!
Contract: sessions.

A session runs one source after the other. Globals, and what the binding of
names knows of them, last from one source to the next. A source with lexical,
syntax or binding errors is not executed. At a prompt a source may also be a bare
expression, whose value is printed.

Owns: the order of the stages, statuses, reports. Does not own: what a stage
does.
-/

namespace Lox

/-- How the run of a source ends. -/
inductive Status where
  | ok
  /-- There are lexical, syntax or binding errors, and nothing was executed. -/
  | staticError
  | runtimeError
  /-- A stack overflow or a breach. -/
  | fatal
  /-- A statement was not done within its steps. -/
  | unfinished
deriving DecidableEq, Repr

/-- The exit code of a process that ran one source. -/
def Status.exitCode : Status → Nat
  | .ok => 0
  | .staticError => 65
  | .runtimeError | .fatal => 70
  | .unfinished => 75

/-- What running a source yields. -/
structure Report where
  status : Status
  diagnostics : List Diagnostic
  output : String
deriving DecidableEq, Repr

/-- What lasts from one source to the next. -/
structure Session where
  world : World
  resolver : Resolver

/-- A program read from a source, unless it has errors. -/
structure ParsedSource where
  program : Option Program
  diagnostics : List Diagnostic

/-- Scans and parses a source. Syntax errors are found also where there are
lexical ones; a source with either has no program. -/
def ParsedSource.of (source : String) : ParsedSource :=
  let scanned := Scan.of source
  let lexical := scanned.errors.map ScanError.diagnostic
  match Program.ofTokens scanned.tokens with
  | .ok program => ⟨if lexical.isEmpty then some program else none, lexical⟩
  | .error errors => ⟨none, lexical ++ errors.map SyntaxError.diagnostic⟩

/-- The expression that a source consists of, if it is one and has no errors. -/
def bareExpression? (source : String) : Option Expr :=
  let scanned := Scan.of source
  if scanned.errors.isEmpty then (Expr.ofTokens scanned.tokens).toOption else none

/-- The program that prints an expression. -/
def Program.printing (expr : Expr) : Program := ⟨[.print expr expr.span]⟩

namespace Session

/-- A session before its first source. -/
def new (callLimit : Nat) (outlet : Outlet) (clock : Clock) : Session :=
  let world := World.initial callLimit outlet clock
  ⟨world, world.globals.names.foldl Resolver.defineGlobal Resolver.fresh⟩

/-- Provides a native under a name. -/
def defineNative (session : Session) (name : String) (arity : Nat) (operation : Operation) :
    Session :=
  ⟨session.world.defineNative name arity operation, session.resolver.defineGlobal name⟩

/-- The session with another clock. -/
def withClock (session : Session) (clock : Clock) : Session :=
  { session with world := session.world.withClock clock }

/-- The report on a verdict. -/
def reportOn (verdict : Verdict) (output : String) : Report :=
  match verdict with
  | .completed => ⟨.ok, [], output⟩
  | .failed fault =>
      ⟨if fault.isFatal then .fatal else .runtimeError, [fault.diagnostic], output⟩
  | .unfinished => ⟨.unfinished, [], output⟩

/-- Binds the names of a program and runs it. -/
def execute (budget : Nat) (program : Program) (session : Session) : Report × Session :=
  let resolution := session.resolver.resolve program
  match resolution.errors with
  | [] =>
      let (verdict, world) :=
        World.interpret budget resolution.program.statements session.world.clearOutput
      (reportOn verdict world.output, ⟨world, resolution.resolver⟩)
  | errors =>
      (⟨.staticError, errors.map BindingError.diagnostic, ""⟩,
        { session with resolver := resolution.resolver })

/-- Runs a source. -/
def run (budget : Nat) (source : String) (session : Session) : Report × Session :=
  let parsed := ParsedSource.of source
  match parsed.program with
  | some program => session.execute budget program
  | none => (⟨.staticError, parsed.diagnostics, ""⟩, session)

/-- Runs what was entered at a prompt: a bare expression is printed. -/
def runEntry (budget : Nat) (source : String) (session : Session) : Report × Session :=
  match bareExpression? source with
  | some expr => session.execute budget (.printing expr)
  | none => session.run budget source

end Session

end Lox
