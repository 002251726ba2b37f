import Lox.World

/-!
Contract: the state of a run that finds variables by name.

Every activation of a local scope, which is a block, a call, or the scope of `this`
or of `super`, has one map from names to cells that all who see the activation share.
A name gets its cell when its declaration is reached; the cell stays empty until the
value is there. A place sees, in every activation around it, the names declared so far;
what is declared later is out of its sight for ever. A name means the cell in the
innermost activation in which it is in sight, and a global where there is none.

There are neither slots nor addresses here: those in a tree are never looked at.

Owns: activations, places, variables by name. Does not own: the order in which a
program does such things.
-/

set_option autoImplicit false

namespace Lox.Lexical

/-- The names of an activation that a place sees. -/
structure Sight where
  activation : EnvironmentRef
  names : List String

/-- What is in sight at a place, the innermost activation first. -/
abbrev Place := List Sight

/-- One activation of a local scope, and the place around it. -/
structure Activation where
  cells : Table (Option Value)
  outer : Place

/-- Why a run fails. The only failure of the interpreter itself is that a variable is
used whose value is not there yet. -/
inductive Mishap where
  | violation (violation : Fault.Violation) (span : Span)
  | stackOverflow (span : Span)
  | output (reason : String) (span : Span)
  | emptyCell (name : String) (span : Span)
deriving DecidableEq, Repr

/-- The state of a run. -/
structure World where
  globals : Table Value
  activations : Array Activation
  /-- Where each function was declared, under its identity. Classes, which have
  identities too, have the empty place. -/
  homes : Array Place
  fields : Array (Table Value)
  natives : Array Operation
  scope : Option EnvironmentRef
  callDepth : Nat
  callLimit : Nat
  moment : Nat
  outlet : Outlet
  written : Array String
  printed : Array String

/-- The innermost activation of a place in which a name is in sight. -/
def seenIn (name : String) : Place → Option EnvironmentRef
  | [] => none
  | sight :: outer => if name ∈ sight.names then some sight.activation else seenIn name outer

/-- The innermost activation of a place. -/
def innermost (place : Place) : Option EnvironmentRef := place.head?.map Sight.activation

namespace World

/-! ## Places -/

/-- The place inside an activation as it is now. -/
def placeIn (world : World) (ref : EnvironmentRef) : Place :=
  match world.activations[ref]? with
  | none => []
  | some activation => ⟨ref, activation.cells.names⟩ :: activation.outer

/-- The place inside an activation, or the top level. -/
def placeAt (world : World) : Option EnvironmentRef → Place
  | none => []
  | some ref => world.placeIn ref

/-- The present place. -/
def place (world : World) : Place := world.placeAt world.scope

/-- Where a function was declared. -/
def home (world : World) (function : Function) : Place :=
  (world.homes[function.identity]?).getD []

/-! ## Variables -/

/-- The content of a cell. -/
def cell? (world : World) (ref : EnvironmentRef) (name : String) : Option (Option Value) :=
  (world.activations[ref]?).bind fun activation => activation.cells.find? name

/-- Puts a content into a cell, a new one if the activation has none of this name. -/
def setCell (world : World) (ref : EnvironmentRef) (name : String) (content : Option Value) :
    World :=
  { world with
    activations := world.activations.modify ref fun activation =>
      { activation with cells := activation.cells.insert name content } }

/-- Makes a name known in the innermost activation, without a value. -/
def announce (world : World) (name : String) : World :=
  match world.scope with
  | none => world
  | some ref => world.setCell ref name none

/-- Gives a declared name its value. -/
def define (world : World) (name : String) (value : Value) : World :=
  match world.scope with
  | none => { world with globals := world.globals.insert name value }
  | some ref => world.setCell ref name (some value)

/-- The value of a variable, seen from a place. -/
def readFrom (world : World) (place : Place) (name : String) (span : Span) :
    Except Mishap Value :=
  match seenIn name place with
  | some ref =>
      match world.cell? ref name with
      | some (some value) => .ok value
      | _ => .error (.emptyCell name span)
  | none =>
      match world.globals.find? name with
      | some value => .ok value
      | none => .error (.violation (.undefinedVariable name) span)

/-- The value of a variable. -/
def read (world : World) (name : String) (span : Span) : Except Mishap Value :=
  world.readFrom world.place name span

/-- Why a variable cannot be assigned, if it cannot. -/
def assignmentMishap? (world : World) (name : String) (span : Span) : Option Mishap :=
  match world.read name span with
  | .ok _ => none
  | .error mishap => some mishap

/-- Assigns a variable that has a value. -/
def assign (world : World) (name : String) (value : Value) : World :=
  match seenIn name world.place with
  | some ref => world.setCell ref name (some value)
  | none => { world with globals := world.globals.insert name value }

/-! ## Activations -/

/-- Makes an activation inside a place in which these names have values. -/
def activate (world : World) (outer : Place) (names : List String) (values : List Value) :
    EnvironmentRef × World :=
  (world.activations.size,
    { world with
      activations := world.activations.push ⟨⟨names.zip (values.map some)⟩, outer⟩ })

/-- Enters an activation, or the top level. -/
def goTo (world : World) (scope : Option EnvironmentRef) : World := { world with scope := scope }

/-! ## Functions, classes and instances -/

/-- Makes a function whose declaration stands at a place. -/
def makeFunction (world : World) (declaration : FunctionDeclaration) (home : Place)
    (isInitializer : Bool) : Function × World :=
  (⟨world.homes.size, declaration, innermost home, isInitializer⟩,
    { world with homes := world.homes.push home })

/-- Makes the methods of a class, in order. -/
def makeMethods (home : Place) :
    List FunctionDeclaration → World → List (String × Function) × World
  | [], world => ([], world)
  | declaration :: rest, world =>
      let (function, world) := world.makeFunction declaration home declaration.isInitializer
      let (others, world) := makeMethods home rest world
      ((declaration.name.text, function) :: others, world)

/-- Makes a class whose methods stand at a place. -/
def makeClass (world : World) (name : String) (superclass : Option Class) (home : Place)
    (methods : List FunctionDeclaration) : Class × World :=
  let (made, world) := makeMethods home methods world
  (.mk world.homes.size name superclass (.ofList made),
    { world with homes := world.homes.push [] })

/-- Makes an instance without fields. -/
def makeInstance (world : World) (origin : Class) : Instance × World :=
  (⟨world.fields.size, origin⟩, { world with fields := world.fields.push .empty })

/-- Binds a method to an instance: a new function inside a new activation of `this`. -/
def bindMethod (world : World) (method : Function) (receiver : Instance) : Function × World :=
  let home := world.home method
  let (ref, world) := world.activate home ["this"] [.instance receiver]
  world.makeFunction method.declaration (⟨ref, ["this"]⟩ :: home) method.isInitializer

/-- The value of a field. -/
def field? (world : World) (object : Instance) (name : String) : Option Value :=
  (world.fields[object.identity]?).bind fun fields => fields.find? name

/-- Puts a value into a field. -/
def setField (world : World) (object : Instance) (name : String) (value : Value) : World :=
  { world with
    fields := world.fields.modify object.identity fun fields => fields.insert name value }

/-! ## Natives, output and the top level -/

/-- Provides a native under a name. -/
def defineNative (world : World) (name : String) (arity : Nat) (operation : Operation) : World :=
  { world with
    globals := world.globals.insert name (.native ⟨world.natives.size, arity⟩)
    natives := world.natives.push operation }

/-- A world before its first program, with its one native `clock`. -/
def initial (callLimit : Nat) (outlet : Outlet) (clock : Clock) : World :=
  let bare : World :=
    { globals := .empty
      activations := #[]
      homes := #[]
      fields := #[]
      natives := #[]
      scope := none
      callDepth := 0
      callLimit := callLimit
      moment := 0
      outlet := outlet
      written := #[]
      printed := #[] }
  bare.defineNative "clock" 0 (.clock clock)

/-- The world back at top level, with no call in progress. -/
def atTopLevel (world : World) : World := { world with scope := none, callDepth := 0 }

/-- The moment after another call of a native. -/
def tick (world : World) : World := { world with moment := world.moment + 1 }

/-- How output behaves now. -/
def sink (world : World) : Sink := world.outlet.behind world.written

/-- Why a line cannot be printed, if it cannot. -/
def printMishap? (world : World) (span : Span) : Option Mishap :=
  world.sink.writeFailure.map fun reason => .output reason span

/-- Prints a line. -/
def print (world : World) (line : String) : World :=
  { world with written := world.written.push line, printed := world.printed.push line }

/-- Why the output cannot be flushed at the end of a program, if it cannot. -/
def flushMishap? (world : World) : Option Mishap :=
  world.sink.flushFailure.map fun reason => .output reason .nowhere

/-- The text printed since the output was last taken. -/
def output (world : World) : String :=
  String.join (world.printed.toList.map (· ++ "\n"))

/-- Forgets what was printed. -/
def clearOutput (world : World) : World := { world with printed := #[] }

end World

end Lox.Lexical
