import Lox.Fault
import Lox.Host

/-!
Contract: the state of a run.

A world holds the globals, the environments, the fields of instances and the
natives of the host, which last from one program to the next; the environment
and the call depth of the place that runs, which are those of the top level
between programs; how often natives have been called, which is all the time there
is; and what has been written.

Owns: variables, fields, new functions, classes and instances, output. Does not
own: the order in which a program does such things.
-/

namespace Lox

/-- The depth limit of calls unless another is asked for. -/
def defaultCallLimit : Nat := 2048

/-- The state of a run. -/
structure World where
  globals : Table Value
  forest : Forest Value
  /-- The fields of each instance, under its identity. -/
  fields : Array (Table Value)
  /-- What each native does, under its number. -/
  natives : Array Operation
  /-- The identity of the next function or class. -/
  nextIdentity : Identity
  /-- The innermost environment, none at top level. -/
  scope : Option EnvironmentRef
  /-- How many calls are in progress. -/
  callDepth : Nat
  /-- No more calls may be in progress at once. -/
  callLimit : Nat
  /-- How many calls of natives there have been. -/
  moment : Nat
  outlet : Outlet
  /-- All lines that have been written. -/
  written : Array String
  /-- The lines printed since the output was last taken, in order. -/
  printed : Array String

namespace World

/-! ## Globals and natives -/

/-- Provides a native under a name. -/
def defineNative (world : World) (name : String) (arity : Nat) (operation : Operation) : World :=
  { world with
    globals := world.globals.insert name (.native ⟨world.natives.size, arity⟩)
    natives := world.natives.push operation }

/-- A world before its first program, with its one native `clock`. -/
def initial (callLimit : Nat) (outlet : Outlet) (clock : Clock) : World :=
  let bare : World :=
    { globals := .empty
      forest := .empty
      fields := #[]
      natives := #[]
      nextIdentity := 0
      scope := none
      callDepth := 0
      callLimit := callLimit
      moment := 0
      outlet := outlet
      written := #[]
      printed := #[] }
  bare.defineNative "clock" 0 (.clock clock)

/-- The world with another clock, which is its first native. -/
def withClock (world : World) (clock : Clock) : World :=
  { world with natives := world.natives.setIfInBounds 0 (.clock clock) }

/-- The world back at top level, with no call in progress. -/
def atTopLevel (world : World) : World := { world with scope := none, callDepth := 0 }

/-! ## Variables -/

/-- Defines a variable: in the innermost environment, where its name no longer
matters, or as a global. -/
def define (world : World) (name : String) (value : Value) : World :=
  match world.scope with
  | none => { world with globals := world.globals.insert name value }
  | some ref => { world with forest := world.forest.define ref value }

/-- The value of a local variable. -/
def readLocal (world : World) (address : Address) (span : Span) : Except Fault Value :=
  match world.scope.bind fun ref => world.forest.getAt? ref address.depth address.slot with
  | some value => .ok value
  | none => .error (.ofBreach (.missingLocal address.depth address.slot) span)

/-- The value of a variable. -/
def readVariable (world : World) (reference : Reference) : Except Fault Value :=
  match reference.address with
  | some address => world.readLocal address reference.name.span
  | none =>
      match world.globals.find? reference.name.text with
      | some value => .ok value
      | none =>
          .error (.ofViolation (.undefinedVariable reference.name.text) reference.name.span)

/-- Why a local variable cannot be assigned, if it cannot. -/
def localFault? (world : World) (address : Address) (span : Span) : Option Fault :=
  if world.scope.any fun ref => world.forest.reaches ref address.depth address.slot then none
  else some (.ofBreach (.missingLocal address.depth address.slot) span)

/-- Why a variable cannot be assigned, if it cannot: it does not exist. -/
def assignmentFault? (world : World) (reference : Reference) : Option Fault :=
  match reference.address with
  | some address => world.localFault? address reference.name.span
  | none =>
      if world.globals.contains reference.name.text then none
      else some (.ofViolation (.undefinedVariable reference.name.text) reference.name.span)

/-- Assigns a local variable that exists. -/
def assignLocal (world : World) (address : Address) (value : Value) : World :=
  match world.scope with
  | none => world
  | some ref =>
      { world with forest := world.forest.assignAt ref address.depth address.slot value }

/-- Assigns a variable that exists. -/
def assign (world : World) (reference : Reference) (value : Value) : World :=
  match reference.address with
  | some address => world.assignLocal address value
  | none => { world with globals := world.globals.insert reference.name.text value }

/-! ## Environments -/

/-- Creates an environment inside `enclosing` that holds these values. -/
def allocate (world : World) (enclosing : Option EnvironmentRef) (values : Array Value) :
    EnvironmentRef × World :=
  (world.forest.next, { world with forest := world.forest.create enclosing values })

/-- Enters a new environment inside `enclosing` that holds these values. -/
def enter (world : World) (enclosing : Option EnvironmentRef) (values : Array Value) : World :=
  let (ref, world) := world.allocate enclosing values
  { world with scope := some ref }

/-- Returns to an environment. -/
def leaveTo (world : World) (scope : Option EnvironmentRef) : World :=
  { world with scope := scope }

/-! ## Functions, classes and instances -/

/-- Makes a function of a declaration inside an environment. -/
def makeFunction (world : World) (declaration : FunctionDeclaration)
    (closure : Option EnvironmentRef) (isInitializer : Bool) : Function × World :=
  (⟨world.nextIdentity, declaration, closure, isInitializer⟩,
    { world with nextIdentity := world.nextIdentity + 1 })

/-- Makes the methods of a class inside an environment, in order. -/
def makeMethods (closure : Option EnvironmentRef) :
    List FunctionDeclaration → World → List (String × Function) × World
  | [], world => ([], world)
  | declaration :: rest, world =>
      let (function, world) := world.makeFunction declaration closure declaration.isInitializer
      let (others, world) := makeMethods closure rest world
      ((declaration.name.text, function) :: others, world)

/-- Makes a class whose methods live inside an environment. Of two methods with
one name the later counts. -/
def makeClass (world : World) (name : String) (superclass : Option Class)
    (closure : Option EnvironmentRef) (methods : List FunctionDeclaration) : Class × World :=
  let (made, world) := makeMethods closure methods world
  (.mk world.nextIdentity name superclass (.ofList made),
    { world with nextIdentity := world.nextIdentity + 1 })

/-- Makes an instance without fields. -/
def makeInstance (world : World) (origin : Class) : Instance × World :=
  (⟨world.fields.size, origin⟩, { world with fields := world.fields.push .empty })

/-- Binds a method to an instance: a new function inside a new environment that
holds `this` in its first slot. -/
def bindMethod (world : World) (method : Function) (receiver : Instance) : Function × World :=
  let (ref, world) := world.allocate method.closure #[.instance receiver]
  world.makeFunction method.declaration (some ref) method.isInitializer

/-- The value of a field. -/
def field? (world : World) (object : Instance) (name : String) : Option Value :=
  (world.fields[object.identity]?).bind fun fields => fields.find? name

/-- Puts a value into a field. -/
def setField (world : World) (object : Instance) (name : String) (value : Value) : World :=
  { world with
    fields := world.fields.modify object.identity fun fields => fields.insert name value }

/-! ## Natives and output -/

/-- The moment after another call of a native. -/
def tick (world : World) : World := { world with moment := world.moment + 1 }

/-- How output behaves now. -/
def sink (world : World) : Sink := world.outlet.behind world.written

/-- Why a line cannot be printed, if it cannot, for a statement at this span. -/
def printFault? (world : World) (span : Span) : Option Fault :=
  world.sink.writeFailure.map fun reason => .ofBreach (.output reason) span

/-- Prints a line. -/
def print (world : World) (line : String) : World :=
  { world with written := world.written.push line, printed := world.printed.push line }

/-- Why the output cannot be flushed at the end of a program, if it cannot. -/
def flushFault? (world : World) : Option Fault :=
  world.sink.flushFailure.map fun reason => .ofBreach (.output reason) .nowhere

/-- The text printed since the output was last taken. -/
def output (world : World) : String :=
  String.join (world.printed.toList.map (· ++ "\n"))

/-- Forgets what was printed. -/
def clearOutput (world : World) : World := { world with printed := #[] }

end World

end Lox
