import Lox.Proofs.Binding.Regions
import Lox.Proofs.Running.Balance
import Lox.Proofs.Running.Begun

/-!
Contract: which names of globals a run makes.

A name of a global is made where a declaration is executed outside of all environments.
Inside of blocks, functions and methods there is an environment, and what is assigned must
exist; so once a run has begun, no global is made but the one of the declaration that
stands at the bottom of its stack (`Stack.Placid`).

Main statement: `World.mem_names_runStatement`.

Owns: the names of globals in a run. Does not own: their values, and sessions.
-/

set_option autoImplicit false

namespace Lox

/-! ## Tables -/

namespace Table

variable {α : Type} (table : Table α)

theorem find?_eq_none_iff (name : String) : table.find? name = none ↔ name ∉ table.names := by
  rw [← table.isSome_find?_iff, Bool.not_eq_true, Option.isSome_eq_false_iff,
    Option.isNone_iff_eq_none]

theorem mem_names_insert (name other : String) (value : α) :
    other ∈ (table.insert name value).names ↔ other ∈ table.names ∨ other = name := by
  rw [← isSome_find?_iff, find?_insert, ← isSome_find?_iff]
  by_cases same : other = name <;> simp [same]

/-- A value under a name that is there already makes no name. -/
theorem names_insert_of_mem {name : String} (member : name ∈ table.names) (value : α) :
    (table.insert name value).names = table.names := by
  obtain ⟨entries⟩ := table
  simp only [insert, names] at member ⊢
  induction entries with
  | nil => cases member
  | cons entry rest inductionHypothesis =>
      by_cases same : entry.1 = name
      · simp [insertIn, same]
      · have later : name ∈ rest.map Prod.fst := by simpa [Ne.symm same] using member
        simp [insertIn, same, inductionHypothesis later]

end Table

/-! ## Placid stacks -/

/-- Outside of all environments, nothing is declared when the frame goes on. -/
def Frame.Placid {awaited outcome : Awaited} : Frame awaited outcome → Prop
  | .declare _ => False
  | .sequence _ => False
  | .branch thenBranch elseBranch =>
      thenBranch.declares = [] ∧ declaresOfOptionalStmt elseBranch = []
  | .condition loop => loop.body.declares = []
  | .round loop => loop.body.declares = []
  | .increment loop => loop.body.declares = []
  | _ => True

/-- From this environment on, no global is declared by the frames but by the last, which
belongs to the declaration of a variable if a name is given. -/
inductive Stack.Placid (last : Option String) :
    Option EnvironmentRef → {awaited : Awaited} → Stack awaited → Prop where
  | empty (noLast : last = none) : Placid last none (.empty : Stack .flow)
  | declare (name : Name) (own : last = some name.text) :
      Placid last none (.push (.declare name) .empty)
  | push {scope : Option EnvironmentRef} {awaited outcome : Awaited}
      {frame : Frame awaited outcome} {rest : Stack outcome}
      (quiet : scope = none → frame.Placid) (below : Placid last (frame.scopeBehind scope) rest) :
      Placid last scope (.push frame rest)

/-- The frame declares a global, and its declaration is all that is left of the run. -/
def Frame.IsLast (last : Option String) (scope : Option EnvironmentRef)
    {awaited outcome : Awaited} : Frame awaited outcome → Stack outcome → Prop
  | .declare name, rest => last = some name.text ∧ scope = none ∧ rest = .empty
  | _, _ => False

/-- The machine declares no global but by the last frame of its stack. -/
def Machine.Placid (last : Option String) : Machine → Prop
  | .evaluate world _ stack => stack.Placid last world.scope
  | .execute world stmt stack =>
      (world.scope = none → stmt.declares = []) ∧ stack.Placid last world.scope
  | .answer world _ stack => stack.Placid last world.scope
  | .finish world _ stack => stack.Placid last world.scope
  | .raise world _ stack => stack.Placid last world.scope ∨ stack = .empty

/-- The machine is placid and has the names of the world. -/
structure Machine.Keeps (last : Option String) (world : World) (machine : Machine) : Prop where
  placid : machine.Placid last
  names : machine.world.globals.names = world.globals.names

section

variable {last : Option String} {scope : Option EnvironmentRef} {awaited outcome : Awaited}
  {frame : Frame awaited outcome} {stack : Stack outcome}

/-- A frame that leaves no environment. -/
theorem Stack.Placid.above (placid : stack.Placid last scope)
    (quiet : scope = none → frame.Placid) (stays : frame.scopeBehind scope = scope) :
    (Stack.push frame stack).Placid last scope := by
  refine .push quiet ?_
  rw [stays]
  exact placid

/-- A frame either is the last of a declaration, or stays quiet above a placid stack. -/
theorem Stack.Placid.inside (placid : (Stack.push frame stack).Placid last scope) :
    frame.IsLast last scope stack ∨
      (scope = none → frame.Placid) ∧ stack.Placid last (frame.scopeBehind scope) := by
  cases placid with
  | declare name own => exact .inl ⟨own, rfl, rfl⟩
  | push quiet below => exact .inr ⟨quiet, below⟩

/-- An empty stack is placid at top level, where no declaration is left. -/
theorem Stack.Placid.bottom (placid : (Stack.empty : Stack .flow).Placid last scope) :
    last = none ∧ scope = none := by
  cases placid with
  | empty noLast => exact ⟨noLast, rfl⟩

end

/-! ## Worlds -/

namespace World

variable {world : World}

/-- In an environment, declarations make no globals. -/
theorem globals_define_of_inside {name : String} {value : Value} (inside : world.scope ≠ none) :
    (world.define name value).globals = world.globals := by
  unfold define
  split
  · next outside => exact absurd outside inside
  · rfl

theorem mem_names_define {name other : String} {value : Value} (outside : world.scope = none) :
    other ∈ (world.define name value).globals.names ↔
      other ∈ world.globals.names ∨ other = name := by
  rw [define, outside]
  exact world.globals.mem_names_insert name other value

/-- What is assigned exists. -/
theorem names_assign {reference : Reference} {value : Value}
    (assignable : world.assignmentFault? reference = none) :
    (world.assign reference value).globals.names = world.globals.names := by
  unfold assign
  split
  · unfold assignLocal
    split <;> rfl
  · next global =>
      simp only [assignmentFault?, global] at assignable
      split at assignable
      · next present =>
          have member := (world.globals.isSome_find?_iff _).mp present
          exact world.globals.names_insert_of_mem member value
      · cases assignable

theorem globals_makeMethods (closure : Option EnvironmentRef) (methods : List FunctionDeclaration)
    (world : World) : (makeMethods closure methods world).2.globals = world.globals := by
  induction methods generalizing world with
  | nil => rfl
  | cons declaration rest inductionHypothesis => exact inductionHypothesis _

theorem globals_makeClass (world : World) (name : String) (superclass : Option Class)
    (closure : Option EnvironmentRef) (methods : List FunctionDeclaration) :
    (world.makeClass name superclass closure methods).2.globals = world.globals :=
  globals_makeMethods closure methods world

end World

/-! ## Steps -/

namespace Machine

variable {last : Option String} {world : World}

theorem keeps_ofResult {stack : Stack .value} (placid : stack.Placid last world.scope)
    (result : Except Fault Value) : (ofResult world stack result).Keeps last world := by
  cases result with
  | ok value => exact ⟨placid, rfl⟩
  | error fault => exact ⟨.inl placid, rfl⟩

theorem keeps_ofOperation {stack : Stack .value} (placid : stack.Placid last world.scope)
    (span : Span) (result : Except Fault.Violation Value) :
    (ofOperation world span stack result).Keeps last world := by
  cases result with
  | ok value => exact ⟨placid, rfl⟩
  | error violation => exact ⟨.inl placid, rfl⟩

/-- In an environment, statements may declare what they will. -/
theorem keeps_statements {stack : Stack .flow} (placid : stack.Placid last world.scope)
    (inside : world.scope ≠ none) (body : List Stmt) :
    (statements world stack body).Keeps last world := by
  cases body with
  | nil => exact ⟨placid, rfl⟩
  | cons first others =>
      exact ⟨⟨fun outside => absurd outside inside,
        .push (fun outside => absurd outside inside) placid⟩, rfl⟩

theorem keeps_inEnvironment {stack : Stack .flow} (placid : stack.Placid last world.scope)
    (enclosing : Option EnvironmentRef) (values : Array Value) (body : List Stmt) :
    (inEnvironment world enclosing values body stack).Keeps last world := by
  have left : (Stack.push (.leave world.scope) stack).Placid last
      (world.enter enclosing values).scope := .push (fun _ => trivial) placid
  have kept := keeps_statements left (by simp [World.enter]) body
  exact ⟨kept.placid, kept.names⟩

theorem keeps_enterFunction {stack : Stack .value} (placid : stack.Placid last world.scope)
    (function : Function) (arguments : List Value) (span : Span) :
    (enterFunction world function arguments span stack).Keeps last world := by
  have pushed : (Stack.push (.body function span) stack).Placid last world.scope :=
    .push (fun _ => trivial) placid
  exact keeps_inEnvironment pushed function.closure _ _

theorem keeps_start {stack : Stack .value} (placid : stack.Placid last world.scope)
    (callable : Callable) (arguments : List Value) (span : Span) :
    (start world callable arguments span stack).Keeps last world := by
  cases callable with
  | function function => exact keeps_enterFunction placid function arguments span
  | native native =>
      simp only [start, callNative]
      split
      · exact ⟨.inl placid, rfl⟩
      · split
        · exact ⟨placid, rfl⟩
        · exact ⟨.inl placid, rfl⟩
  | «class» origin =>
      simp only [start, construct]
      split
      · exact ⟨placid, rfl⟩
      · next initializer _ =>
          have pushed : (Stack.push (.construct (world.makeInstance origin).1) stack).Placid last
              ((world.makeInstance origin).2.bindMethod initializer
                (world.makeInstance origin).1).2.scope := .push (fun _ => trivial) placid
          have kept := keeps_enterFunction pushed
            ((world.makeInstance origin).2.bindMethod initializer (world.makeInstance origin).1).1
            arguments span
          exact ⟨kept.placid, kept.names⟩

theorem keeps_invoke {stack : Stack .value} (placid : stack.Placid last world.scope)
    (callable : Callable) (arguments : List Value) (span : Span) :
    (invoke world callable arguments span stack).Keeps last world := by
  simp only [invoke]
  split
  · exact ⟨.inl placid, rfl⟩
  · have pushed : (Stack.push .call stack).Placid last
        { world with callDepth := world.callDepth + 1 }.scope := .push (fun _ => trivial) placid
    have kept := keeps_start pushed callable arguments span
    exact ⟨kept.placid, kept.names⟩

theorem keeps_callValue {stack : Stack .value} (placid : stack.Placid last world.scope)
    (callee : Value) (arguments : List Value) (span : Span) :
    (callValue world callee arguments span stack).Keeps last world := by
  simp only [callValue]
  split
  · exact ⟨.inl placid, rfl⟩
  · split
    · exact keeps_invoke placid _ arguments span
    · exact ⟨.inl placid, rfl⟩

theorem keeps_methodOf {stack : Stack .value} (placid : stack.Placid last world.scope)
    (origin : Class) (receiver : Instance) (name : Name) :
    (methodOf world origin receiver name stack).Keeps last world := by
  simp only [methodOf]
  split
  · next method _ =>
      have bound : stack.Placid last (world.bindMethod method receiver).2.scope := placid
      simp only [boundMethod]
      split
      · have kept :=
          keeps_invoke bound (.function (world.bindMethod method receiver).1) [] name.span
        exact ⟨kept.placid, kept.names⟩
      · exact ⟨bound, rfl⟩
  · exact ⟨.inl placid, rfl⟩

theorem keeps_property {stack : Stack .value} (placid : stack.Placid last world.scope)
    (object : Instance) (name : Name) : (property world object name stack).Keeps last world := by
  simp only [property]
  split
  · exact ⟨placid, rfl⟩
  · exact keeps_methodOf placid object.origin object name

theorem keeps_superMethod {stack : Stack .value} (placid : stack.Placid last world.scope)
    (address : Option Address) (name : Name) (span : Span) :
    (superMethod world address name span stack).Keeps last world := by
  unfold superMethod
  split
  · exact ⟨.inl placid, rfl⟩
  · exact ⟨.inl placid, rfl⟩
  · split
    · exact ⟨.inl placid, rfl⟩
    · split
      · exact ⟨.inl placid, rfl⟩
      · exact keeps_methodOf placid _ _ name
      · exact ⟨.inl placid, rfl⟩
    · exact ⟨.inl placid, rfl⟩

theorem keeps_beginExpr {stack : Stack .value} (placid : stack.Placid last world.scope)
    (expr : Expr) : (beginExpr world stack expr).Keeps last world := by
  have push {frame : Frame .value .value} (quiet : frame.Placid)
      (stays : frame.scopeBehind world.scope = world.scope) :
      (Stack.push frame stack).Placid last world.scope := placid.above (fun _ => quiet) stays
  cases expr with
  | literal value span => exact ⟨placid, rfl⟩
  | grouping inner span => exact ⟨placid, rfl⟩
  | «variable» reference => exact keeps_ofResult placid _
  | assign target value span => exact ⟨push trivial rfl, rfl⟩
  | unary operator operand span => exact ⟨push trivial rfl, rfl⟩
  | binary operator left right span => exact ⟨push trivial rfl, rfl⟩
  | logical operator left right span => exact ⟨push trivial rfl, rfl⟩
  | call callee arguments span => exact ⟨push trivial rfl, rfl⟩
  | get object name => exact ⟨push trivial rfl, rfl⟩
  | set object name value span => exact ⟨push trivial rfl, rfl⟩
  | this address span =>
      cases address with
      | none => exact ⟨.inl placid, rfl⟩
      | some address => exact keeps_ofResult placid _
  | super address method span => exact keeps_superMethod placid address method span
  | lambda function => exact ⟨placid, rfl⟩

/-- In an environment, a declaration makes no global. -/
theorem keeps_define {stack : Stack .flow} (placid : stack.Placid last world.scope)
    (inside : world.scope ≠ none) (name : String) (value : Value) :
    Keeps last world (.finish (world.define name value) .normal stack) where
  placid := by
    show stack.Placid last (world.define name value).scope
    rw [(World.samePlace_define world name value).scope]
    exact placid
  names := congrArg Table.names (World.globals_define_of_inside inside)

theorem keeps_declareClass {stack : Stack .flow} (placid : stack.Placid last world.scope)
    (inside : world.scope ≠ none) (name : Name) (superclass : Option Class)
    (closure : Option EnvironmentRef) (methods : List FunctionDeclaration) :
    (declareClass world name superclass closure methods stack).Keeps last world := by
  have made := (World.samePlace_makeClass world name.text superclass closure methods).scope
  have below : stack.Placid last
      (world.makeClass name.text superclass closure methods).2.scope := by
    rw [made]
    exact placid
  have still : (world.makeClass name.text superclass closure methods).2.scope ≠ none := by
    rw [made]
    exact inside
  have kept := keeps_define below still name.text
    (.class (world.makeClass name.text superclass closure methods).1)
  have globals := World.globals_makeClass world name.text superclass closure methods
  exact ⟨kept.placid, kept.names.trans (congrArg Table.names globals)⟩

theorem keeps_executeClass {stack : Stack .flow} (placid : stack.Placid last world.scope)
    (inside : world.scope ≠ none) (name : Name) (superclass : Option Reference)
    (methods : List FunctionDeclaration) :
    (executeClass world name superclass methods stack).Keeps last world := by
  unfold executeClass
  split
  · exact keeps_declareClass placid inside name none world.scope methods
  · split
    · exact ⟨.inl placid, rfl⟩
    · next inherited _ =>
        have allocated : stack.Placid last
            (world.allocate world.scope #[.class inherited]).2.scope := placid
        have kept := keeps_declareClass allocated inside name (some inherited)
          (some (world.allocate world.scope #[.class inherited]).1) methods
        exact ⟨kept.placid, kept.names⟩
    · exact ⟨.inl placid, rfl⟩

theorem keeps_beginStmt {stack : Stack .flow} (placid : stack.Placid last world.scope)
    {stmt : Stmt} (quiet : world.scope = none → stmt.declares = []) :
    (beginStmt world stack stmt).Keeps last world := by
  -- A declaration stands in an environment.
  have inside {name : String} (declares : stmt.declares = [name]) : world.scope ≠ none := by
    intro outside
    rw [declares] at quiet
    cases quiet outside
  have push {frame : Frame .value .flow} (calm : world.scope = none → frame.Placid)
      (stays : frame.scopeBehind world.scope = world.scope) :
      (Stack.push frame stack).Placid last world.scope := placid.above calm stays
  cases stmt with
  | expression value span => exact ⟨push (fun _ => trivial) rfl, rfl⟩
  | print value span => exact ⟨push (fun _ => trivial) rfl, rfl⟩
  | var name initializer span =>
      cases initializer with
      | none => exact keeps_define placid (inside rfl) name.text .nil
      | some value => exact ⟨push (fun outside => absurd outside (inside rfl)) rfl, rfl⟩
  | block body span => exact keeps_inEnvironment placid world.scope #[] body
  | conditional condition thenBranch elseBranch span =>
      exact ⟨push (fun outside => List.append_eq_nil_iff.mp (quiet outside)) rfl, rfl⟩
  | loop condition body increment span => exact ⟨push quiet rfl, rfl⟩
  | function declaration span =>
      have made : stack.Placid last (world.makeFunction declaration world.scope false).2.scope :=
        placid
      have kept := keeps_define made (inside rfl) declaration.name.text
        (.function (world.makeFunction declaration world.scope false).1)
      exact ⟨kept.placid, kept.names⟩
  | «return» value span =>
      cases value with
      | none => exact ⟨placid, rfl⟩
      | some value => exact ⟨push (fun _ => trivial) rfl, rfl⟩
  | «class» name superclass methods span =>
      exact keeps_executeClass placid (inside rfl) name superclass methods
  | «break» span => exact ⟨placid, rfl⟩
  | «continue» span => exact ⟨placid, rfl⟩

theorem keeps_nextArgument {stack : Stack .value} (placid : stack.Placid last world.scope)
    (callee : Value) (before : List Value) (others : List Expr) (span : Span) :
    (nextArgument world callee before others span stack).Keeps last world := by
  cases others with
  | nil => exact keeps_callValue placid callee before.reverse span
  | cons first rest => exact ⟨placid.above (fun _ => trivial) rfl, rfl⟩

theorem keeps_testLoop {stack : Stack .flow} (placid : stack.Placid last world.scope) {loop : Loop}
    (quiet : world.scope = none → loop.body.declares = []) :
    (testLoop world loop stack).Keeps last world :=
  ⟨placid.above quiet rfl, rfl⟩

/-- The last frame makes its global, and the run has come to its end. -/
def Makes (last : Option String) (world : World) (machine : Machine) : Prop :=
  ∃ name value, last = some name ∧ world.scope = none ∧
    machine = .finish (world.define name value) .normal .empty

theorem makes_giveValue (found : Value) {outcome : Awaited} {frame : Frame .value outcome}
    {stack : Stack outcome} (isLast : frame.IsLast last world.scope stack) :
    (giveValue world found frame stack).Makes last world := by
  cases frame with
  | declare name =>
      obtain ⟨own, outside, rfl⟩ := isLast
      exact ⟨name.text, found, own, outside, rfl⟩
  | _ => exact isLast.elim

theorem keeps_giveValue (found : Value) {outcome : Awaited} {frame : Frame .value outcome}
    {stack : Stack outcome} (quiet : world.scope = none → frame.Placid)
    (below : stack.Placid last (frame.scopeBehind world.scope)) :
    (giveValue world found frame stack).Keeps last world := by
  cases frame with
  | assign target =>
      simp only [giveValue]
      split
      · exact ⟨.inl below, rfl⟩
      · next assignable =>
          refine ⟨?_, World.names_assign assignable⟩
          show stack.Placid last (world.assign target found).scope
          rw [(World.samePlace_assign world target found).scope]
          exact below
  | unary operator span => exact keeps_ofOperation below span _
  | leftOperand operator right span => exact ⟨below.above (fun _ => trivial) rfl, rfl⟩
  | rightOperand operator left span => exact keeps_ofOperation below span _
  | logical operator right =>
      simp only [giveValue]
      split <;> exact ⟨below, rfl⟩
  | callee arguments span => exact keeps_nextArgument below found [] arguments span
  | argument callee before others span =>
      exact keeps_nextArgument below callee (found :: before) others span
  | property name =>
      cases found with
      | «instance» object => exact keeps_property below object name
      | _ => exact ⟨.inl below, rfl⟩
  | fieldObject name value =>
      cases found with
      | «instance» object => exact ⟨below.above (fun _ => trivial) rfl, rfl⟩
      | _ => exact ⟨.inl below, rfl⟩
  | fieldValue object name => exact ⟨below, rfl⟩
  | discard => exact ⟨below, rfl⟩
  | print span =>
      simp only [giveValue]
      split
      · exact ⟨.inl below, rfl⟩
      · exact ⟨below, rfl⟩
  | declare name => exact keeps_define below quiet name.text found
  | branch thenBranch elseBranch =>
      simp only [giveValue]
      split
      · exact ⟨⟨fun outside => (quiet outside).1, below⟩, rfl⟩
      · split
        · exact ⟨⟨fun outside => (quiet outside).2, below⟩, rfl⟩
        · exact ⟨below, rfl⟩
  | condition loop =>
      simp only [giveValue]
      split
      · exact ⟨⟨quiet, below.above quiet rfl⟩, rfl⟩
      · exact ⟨below, rfl⟩
  | increment loop => exact keeps_testLoop below quiet
  | «return» => exact ⟨below, rfl⟩
  | construct object => exact ⟨below, rfl⟩
  | call => exact ⟨below, rfl⟩

theorem keeps_endBody {stack : Stack .value} (placid : stack.Placid last world.scope)
    (function : Function) (span : Span) (flow : Flow) :
    (endBody world function span flow stack).Keeps last world := by
  simp only [endBody]
  split
  · split
    · exact ⟨placid, rfl⟩
    · exact ⟨.inl placid, rfl⟩
  · split <;> exact ⟨placid, rfl⟩

theorem keeps_giveFlow (flow : Flow) {outcome : Awaited} {frame : Frame .flow outcome}
    {stack : Stack outcome} (quiet : world.scope = none → frame.Placid)
    (below : stack.Placid last (frame.scopeBehind world.scope)) :
    (giveFlow world flow frame stack).Keeps last world := by
  cases frame with
  | round loop =>
      simp only [giveFlow]
      split
      · exact ⟨below, rfl⟩
      · exact ⟨below, rfl⟩
      · split
        · exact ⟨below.above quiet rfl, rfl⟩
        · exact keeps_testLoop below quiet
  | sequence others =>
      simp only [giveFlow]
      split
      · exact keeps_statements below quiet others
      · exact ⟨below, rfl⟩
  | leave previous => exact ⟨below, rfl⟩
  | body function span => exact keeps_endBody below function span flow

/-- A fault on its way out declares nothing. -/
theorem keeps_unwind {awaited outcome : Awaited} {frame : Frame awaited outcome}
    {stack : Stack outcome} (placid : (Stack.push frame stack).Placid last world.scope)
    (failure : Fault) : Keeps last world (.raise (unwind world frame) failure stack) := by
  obtain isLast | ⟨-, below⟩ := placid.inside
  · cases frame with
    | declare name => exact ⟨.inr isLast.2.2, rfl⟩
    | _ => exact isLast.elim
  · cases frame <;> exact ⟨.inl below, rfl⟩

/-- A step of a placid machine makes no global, or the last one. -/
theorem Placid.next {machine : Machine} (placid : machine.Placid last) :
    machine.next.Keeps last machine.world ∨ machine.next.Makes last machine.world := by
  cases machine with
  | evaluate world expr stack => exact .inl (keeps_beginExpr placid expr)
  | execute world stmt stack => exact .inl (keeps_beginStmt placid.2 placid.1)
  | answer world found stack =>
      cases stack with
      | empty => exact .inl ⟨placid, rfl⟩
      | push frame rest =>
          obtain isLast | ⟨quiet, below⟩ := Stack.Placid.inside placid
          · exact .inr (makes_giveValue found isLast)
          · exact .inl (keeps_giveValue found quiet below)
  | finish world flow stack =>
      cases stack with
      | empty => exact .inl ⟨placid, rfl⟩
      | push frame rest =>
          obtain isLast | ⟨quiet, below⟩ := Stack.Placid.inside placid
          · cases frame <;> exact isLast.elim
          · exact .inl (keeps_giveFlow flow quiet below)
  | raise world failure stack =>
      cases stack with
      | empty => exact .inl ⟨.inr rfl, rfl⟩
      | push frame rest =>
          obtain placid | isEmpty := placid
          · exact .inl (keeps_unwind placid failure)
          · cases isEmpty

/-- The globals have the names of the world, or also the last one. -/
def Settles (last : Option String) (world : World) (machine : Machine) : Prop :=
  machine.Keeps last world ∨
    ∃ reached, reached.globals.names = world.globals.names ∧ machine.Makes last reached

/-- What one step keeps, a run keeps until the last global is made. -/
theorem Keeps.run {machine : Machine} (keeps : machine.Keeps last world) (steps : Nat) :
    (machine.run steps).Settles last world := by
  induction steps generalizing machine with
  | zero => exact .inl keeps
  | succ steps inductionHypothesis =>
      simp only [Machine.run]
      split
      · exact .inl keeps
      · obtain still | makes := keeps.placid.next
        · exact inductionHypothesis ⟨still.placid, still.names.trans keeps.names⟩
        · obtain ⟨name, value, own, outside, finished⟩ := makes
          refine .inr ⟨machine.world, keeps.names, name, value, own, outside, ?_⟩
          rw [finished]
          exact run_of_isDone rfl steps

theorem Settles.run {machine : Machine} (settles : machine.Settles last world) (steps : Nat) :
    (machine.run steps).Settles last world := by
  obtain keeps | ⟨reached, same, makes⟩ := settles
  · exact keeps.run steps
  · obtain ⟨name, value, own, outside, finished⟩ := makes
    refine .inr ⟨reached, same, name, value, own, outside, ?_⟩
    rw [finished]
    exact run_of_isDone rfl steps

/-! ## Statements at top level -/

theorem makes_declareClass (outside : world.scope = none) (name : Name)
    (superclass : Option Class) (closure : Option EnvironmentRef)
    (methods : List FunctionDeclaration) :
    (declareClass world name superclass closure methods .empty).Makes (some name.text)
      (world.makeClass name.text superclass closure methods).2 := by
  have made := (World.samePlace_makeClass world name.text superclass closure methods).scope
  exact ⟨name.text, _, rfl, made.trans outside, rfl⟩

theorem settles_executeClass (outside : world.scope = none) (name : Name)
    (superclass : Option Reference) (methods : List FunctionDeclaration) :
    (executeClass world name superclass methods .empty).Settles (some name.text) world := by
  unfold executeClass
  split
  · refine .inr ⟨_, ?_, makes_declareClass outside name none world.scope methods⟩
    exact congrArg Table.names (world.globals_makeClass ..)
  · split
    · exact .inl ⟨.inr rfl, rfl⟩
    · next inherited _ =>
        have allocated : (world.allocate world.scope #[.class inherited]).2.scope = none := outside
        refine .inr ⟨_, ?_, makes_declareClass allocated name (some inherited)
          (some (world.allocate world.scope #[.class inherited]).1) methods⟩
        exact congrArg Table.names (World.globals_makeClass ..)
    · exact .inl ⟨.inr rfl, rfl⟩

/-- Where branches and bodies of loops are no declarations, the first step of a statement
makes the global of the statement, or leaves it to the last frame. -/
theorem settles_beginStmt (outside : world.scope = none) {stmt : Stmt}
    (single : stmt.declares = stmt.declared?.toList) :
    (beginStmt world .empty stmt).Settles stmt.declared? world := by
  have alone : (Stack.empty : Stack .flow).Placid none world.scope := outside ▸ .empty rfl
  cases stmt with
  | var name initializer span =>
      cases initializer with
      | none => exact .inr ⟨world, rfl, name.text, .nil, rfl, outside, rfl⟩
      | some value =>
          have last : (Stack.push (.declare name) .empty).Placid (some name.text) world.scope :=
            outside ▸ .declare name rfl
          exact .inl ⟨last, rfl⟩
  | function declaration span =>
      exact .inr ⟨(world.makeFunction declaration world.scope false).2, rfl,
        declaration.name.text, _, rfl, outside, rfl⟩
  | «class» name superclass methods span =>
      exact settles_executeClass outside name superclass methods
  | _ => exact .inl (keeps_beginStmt alone fun _ => single)

end Machine

namespace World

/-- How a statement at top level ends: no global is made, and none is if a declaration has
come to its end; or the statement has made its global. -/
theorem runStatement_settles {world : World} (outside : world.scope = none) {stmt : Stmt}
    (single : stmt.declares = stmt.declared?.toList) (budget : Nat) :
    ((world.runStatement budget stmt).2.globals.names = world.globals.names ∧
        ((world.runStatement budget stmt).1 = .completed →
          stmt.declared? = none ∧ (world.runStatement budget stmt).2.scope = none)) ∨
      ∃ (reached : World) (name : String) (value : Value),
        reached.globals.names = world.globals.names ∧
        stmt.declared? = some name ∧ reached.scope = none ∧
        world.runStatement budget stmt = (.completed, reached.define name value) := by
  cases budget with
  | zero => exact .inl ⟨rfl, nofun⟩
  | succ steps =>
      have settles := (Machine.settles_beginStmt outside single).run steps
      have same : (Machine.execute world stmt .empty).run (steps + 1) =
          (Machine.beginStmt world .empty stmt).run steps := rfl
      obtain keeps | ⟨reached, names, name, value, own, there, finished⟩ := settles
      · rw [← same] at keeps
        refine .inl ⟨(congrArg (·.globals.names) (runStatement_world _ world stmt)).trans
          keeps.names, fun completed => ?_⟩
        have placid := keeps.placid
        unfold runStatement at completed ⊢
        split at completed
        · next reached flow finished =>
            rw [finished] at placid
            exact Stack.Placid.bottom placid
        · cases completed
        · cases completed
      · refine .inr ⟨reached, name, value, names, own, there, ?_⟩
        rw [runStatement, same, finished]

/-- A statement at top level makes the global that it declares, if it comes to its end, and
no other. -/
theorem mem_names_runStatement {world : World} (outside : world.scope = none) {stmt : Stmt}
    (single : stmt.declares = stmt.declared?.toList) (budget : Nat) (name : String) :
    name ∈ (world.runStatement budget stmt).2.globals.names ↔
      name ∈ world.globals.names ∨
        (world.runStatement budget stmt).1 = .completed ∧ stmt.declared? = some name := by
  obtain ⟨same, none⟩ | ⟨reached, own, value, same, declared, there, ended⟩ :=
    runStatement_settles outside single budget
  · rw [same]
    refine ⟨.inl, fun either => either.elim id fun ⟨completed, declares⟩ => ?_⟩
    rw [(none completed).1] at declares
    cases declares
  · rw [ended, mem_names_define there, same, declared]
    simp [eq_comm]

/-- A statement at top level that comes to its end is at top level again. -/
theorem scope_runStatement {world : World} (outside : world.scope = none) {stmt : Stmt}
    (single : stmt.declares = stmt.declared?.toList) {budget : Nat}
    (completed : (world.runStatement budget stmt).1 = .completed) :
    (world.runStatement budget stmt).2.scope = none := by
  obtain ⟨-, none⟩ | ⟨reached, own, value, -, -, there, ended⟩ :=
    runStatement_settles outside single budget
  · exact (none completed).2
  · rw [ended]
    exact (samePlace_define reached own value).scope.trans there

end World

end Lox
