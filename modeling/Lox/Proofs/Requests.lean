import Lox.Proofs.Binding.Unbound

/-!
Contract: what a host asks of a session, one request after the other.

A host runs sources, passes on what was entered at a prompt, and provides natives. A
native is honest if what it returns is known already: it is an argument, or the world had
it when the native was provided, or it is the class of such an instance or the superclass
of such a class, or it needs no world. A native cannot make functions, classes or instances.

Owns: requests, and serving a list of them. Does not own: sessions.
-/

set_option autoImplicit false

namespace Lox

/-! ## Honest natives -/

/-- What can be had from given values: they themselves, the class of an instance, the
superclass of a class, and values that need no world. -/
inductive Value.From (given : Value → Prop) : Value → Prop
  | given {value : Value} (isGiven : given value) : From given value
  | nil : From given .nil
  | boolean (truth : Bool) : From given (.boolean truth)
  | number (number : Float) : From given (.number number)
  | string (text : String) : From given (.string text)
  | origin {object : Instance} (made : From given (.instance object)) :
      From given (.class object.origin)
  | superclass {identity : Identity} {name : String} {superclass : Class}
      {methods : Table Function}
      (derived : From given (.class (.mk identity name (some superclass) methods))) :
      From given (.class superclass)

/-- Of more values more can be had. -/
theorem Value.From.mono {given more : Value → Prop} (fewer : ∀ value, given value → more value)
    {value : Value} (has : value.From given) : value.From more := by
  induction has with
  | given isGiven => exact .given (fewer _ isGiven)
  | nil => exact .nil
  | boolean truth => exact .boolean truth
  | number number => exact .number number
  | string text => exact .string text
  | origin _ inductionHypothesis => exact .origin inductionHypothesis
  | superclass _ inductionHypothesis => exact .superclass inductionHypothesis

/-- The value stands in a global variable, in an environment or in a field. -/
inductive World.Contains (world : World) (value : Value) : Prop
  | global {name : String} (found : world.globals.find? name = some value)
  | slot {ref : EnvironmentRef} {slot : Nat} (found : world.forest.slot? ref slot = some value)
  | field {object : Instance} {name : String} (found : world.field? object name = some value)

/-- What the operation answers can be had from its arguments and from given values. -/
def Operation.AnswersFrom (given : Value → Prop) (operation : Operation) : Prop :=
  ∀ moment arguments result, operation.answer moment arguments = .ok result →
    result.From fun value => value ∈ arguments ∨ given value

theorem Operation.AnswersFrom.mono {given more : Value → Prop}
    (fewer : ∀ value, given value → more value) {operation : Operation}
    (answers : operation.AnswersFrom given) : operation.AnswersFrom more :=
  fun moment arguments result answered =>
    (answers moment arguments result answered).mono fun value => Or.imp_right (fewer value)

/-- A clock needs no world. -/
theorem Operation.answersFrom_clock (given : Value → Prop) (clock : Clock) :
    (Operation.clock clock).AnswersFrom given := by
  intro moment arguments result answered
  simp only [Operation.clock] at answered
  split at answered
  · obtain rfl := Except.ok.inj answered
    exact .number _
  · cases answered

/-- In this world the native is honest. -/
def Operation.Honest (world : World) (operation : Operation) : Prop :=
  operation.AnswersFrom world.Contains

theorem Operation.Honest.answersFrom {world : World} {operation : Operation}
    (honest : operation.Honest world) {given : Value → Prop}
    (contained : ∀ value, world.Contains value → given value) : operation.AnswersFrom given :=
  AnswersFrom.mono contained honest

/-! ## Requests -/

/-- What a host may ask of a session. -/
inductive Request where
  /-- To run a source. -/
  | run (source : String)
  /-- To run what was entered at a prompt. -/
  | enter (source : String)
  /-- To provide a native. -/
  | provide (name : String) (arity : Nat) (operation : Operation)

/-- The program that the request has run, unless it is malformed. -/
def Request.program? : Request → Option Program
  | .run source => (ParsedSource.of source).program
  | .enter source =>
      match bareExpression? source with
      | some expr => some (.printing expr)
      | none => (ParsedSource.of source).program
  | .provide _ _ _ => none

/-- A program that a request has run is as it was read. -/
theorem Request.unbound_of_program? {request : Request} {program : Program}
    (read : request.program? = some program) : unboundStmts program.statements := by
  cases request with
  | run source => exact ParsedSource.unbound read
  | enter source =>
      simp only [Request.program?] at read
      split at read
      · next expr bare =>
          obtain rfl := Option.some.inj read
          exact ⟨unbound_of_bareExpression? bare, trivial⟩
      · exact ParsedSource.unbound read
  | provide name arity operation => cases read

/-- A native that is provided is honest in the world to which it is provided. -/
def Request.Honest (world : World) : Request → Prop
  | .provide _ _ operation => operation.Honest world
  | _ => True

/-- Answers requests one after the other. -/
def serve {State Answer : Type} (answer : Request → State → Answer × State) :
    List Request → State → List Answer × State
  | [], state => ([], state)
  | request :: rest, state =>
      let (first, state) := answer request state
      let (others, state) := serve answer rest state
      (first :: others, state)

namespace Session

/-- Does what is asked. To provide a native has no report. -/
def answer (budget : Nat) (request : Request) (session : Session) : Option Report × Session :=
  match request with
  | .run source =>
      let (report, session) := session.run budget source
      (some report, session)
  | .enter source =>
      let (report, session) := session.runEntry budget source
      (some report, session)
  | .provide name arity operation => (none, session.defineNative name arity operation)

/-- All natives that are provided while the requests are served are honest. -/
def ServedHonestly (budget : Nat) : List Request → Session → Prop
  | [], _ => True
  | request :: rest, session =>
      request.Honest session.world ∧ ServedHonestly budget rest (session.answer budget request).2

/-- How the program of a request ends, unless it is rejected. -/
def verdict? (budget : Nat) (request : Request) (session : Session) : Option Verdict :=
  match request.program? with
  | none => none
  | some program =>
      match (session.resolver.resolve program).errors with
      | [] =>
          some (World.interpret budget (session.resolver.resolve program).program.statements
            session.world.clearOutput).1
      | _ => none

end Session

end Lox
