import Lox.Proofs.Lexical.Machine
import Lox.Proofs.Requests

/-!
Contract: sessions that find variables by name.

Which sources are accepted is decided as in every session, by the same pass over
names; only accepted programs are run differently.

Owns: reference sessions and their reports. Does not own: steps.
-/

set_option autoImplicit false

namespace Lox.Lexical

/-- What lasts from one source to the next. -/
structure Session where
  world : World
  resolver : Resolver

/-- What running a source yields: complaints, and nothing was run, or a verdict and
what was printed. -/
inductive Report where
  | rejected (diagnostics : List Diagnostic)
  | ran (verdict : Verdict) (output : String)

namespace Session

/-- A session before its first source. -/
def new (callLimit : Nat) (outlet : Outlet) (clock : Clock) : Session :=
  let world := World.initial callLimit outlet clock
  ⟨world, world.globals.names.foldl Resolver.defineGlobal Resolver.fresh⟩

/-- Provides a native under a name. -/
def defineNative (session : Session) (name : String) (arity : Nat) (operation : Operation) :
    Session :=
  ⟨session.world.defineNative name arity operation, session.resolver.defineGlobal name⟩

/-- Checks the names of a program and runs it. -/
def execute (budget : Nat) (program : Program) (session : Session) : Report × Session :=
  let resolution := session.resolver.resolve program
  match resolution.errors with
  | [] =>
      let (verdict, world) :=
        World.interpret budget resolution.program.statements session.world.clearOutput
      (.ran verdict world.output, ⟨world, resolution.resolver⟩)
  | errors =>
      (.rejected (errors.map BindingError.diagnostic),
        { session with resolver := resolution.resolver })

/-- Runs a source. -/
def run (budget : Nat) (source : String) (session : Session) : Report × Session :=
  let parsed := ParsedSource.of source
  match parsed.program with
  | some program => session.execute budget program
  | none => (.rejected parsed.diagnostics, session)

/-- Runs what was entered at a prompt: a bare expression is printed. -/
def runEntry (budget : Nat) (source : String) (session : Session) : Report × Session :=
  match bareExpression? source with
  | some expr => session.execute budget (.printing expr)
  | none => session.run budget source

/-- Does what is asked. To provide a native has no report. -/
def answer (budget : Nat) (request : Request) (session : Session) : Option Report × Session :=
  match request with
  | .run source =>
      let (report, session) := session.run budget source
      (some report, session)
  | .enter source =>
      let (report, session) := session.runEntry budget source
      (some report, session)
  | .provide name arity operation => (none, session.defineNative name arity operation)

end Session

end Lox.Lexical
