import Lox.Proofs.Binding.Regions
import Lox.Proofs.Binding.Cleared
import Lox.Proofs.Environment.Sharing
import Lox.Proofs.Grammar.WellFormed
import Lox.Proofs.Running.Balance
import Lox.Proofs.Running.Base

/-!
Contract: a block or body that completes fills one slot for each declaration directly in it.

In a tree that was read only the statements of a block or body declare anything in its scope, and
no branch or loop body does. So at every moment of a run the slots that are filled and the
declarations that the frames still owe (`Stack.owed`) add up to the same number, unless the run
leaves the body early. Only the environment that the body was entered with is counted: calls
and inner blocks run in environments of their own.

Main statement: `Grammar.trees_wellFormed`.

Owns: the count of slots. Does not own: which slot an address selects.
-/

set_option autoImplicit false

namespace Lox

/-! ## Declarations of a body -/

/-- How many of the statements are declarations. -/
def declarationCount (body : List Stmt) : Nat := body.countP fun stmt => stmt.declared?.isSome

/-- The statement declares nothing in its scope unless it is a declaration itself. -/
def Stmt.Overt (stmt : Stmt) : Prop := stmt.declares = stmt.declared?.toList

theorem declarationCount_cons (stmt : Stmt) (rest : List Stmt) :
    declarationCount (stmt :: rest) = stmt.declared?.toList.length + declarationCount rest := by
  cases declared : stmt.declared? <;>
    simp [declarationCount, declared, Nat.add_comm]

theorem Stmt.declared?_of_declares {stmt : Stmt} (nothing : stmt.declares = []) :
    stmt.declared? = none := by
  cases stmt <;> simp_all [Stmt.declares, Stmt.declared?]

theorem Stmt.overt_of_declares {stmt : Stmt} (nothing : stmt.declares = []) : stmt.Overt := by
  rw [Stmt.Overt, nothing, Stmt.declared?_of_declares nothing]
  rfl

section WellFormed

variable {tokens : List Token}

mutual

theorem Stmt.overt_of_wellFormed : (stmt : Stmt) → stmt.WellFormed tokens → stmt.Overt
  | .conditional _ thenBranch elseBranch _, formed => by
      obtain ⟨_, ⟨formedThen, notDeclaration⟩, formedElse⟩ := formed
      have nothing := thenBranch.overt_of_wellFormed formedThen
      rw [Stmt.Overt, notDeclaration] at nothing
      simp [Stmt.Overt, Stmt.declares, Stmt.declared?, nothing,
        declaresOfOptionalStmt_of_wellFormed elseBranch formedElse]
  | .loop _ body _ _, formed => by
      obtain ⟨_, ⟨formedBody, notDeclaration⟩, _⟩ := formed
      have nothing := body.overt_of_wellFormed formedBody
      rw [Stmt.Overt, notDeclaration] at nothing
      simp [Stmt.Overt, Stmt.declares, Stmt.declared?, nothing]
  | .expression _ _, _ => by simp [Stmt.Overt, Stmt.declares, Stmt.declared?]
  | .print _ _, _ => by simp [Stmt.Overt, Stmt.declares, Stmt.declared?]
  | .var _ _ _, _ => by simp [Stmt.Overt, Stmt.declares, Stmt.declared?]
  | .block _ _, _ => by simp [Stmt.Overt, Stmt.declares, Stmt.declared?]
  | .function _ _, _ => by simp [Stmt.Overt, Stmt.declares, Stmt.declared?]
  | .return _ _, _ => by simp [Stmt.Overt, Stmt.declares, Stmt.declared?]
  | .class _ _ _ _, _ => by simp [Stmt.Overt, Stmt.declares, Stmt.declared?]
  | .break _, _ => by simp [Stmt.Overt, Stmt.declares, Stmt.declared?]
  | .continue _, _ => by simp [Stmt.Overt, Stmt.declares, Stmt.declared?]

theorem declaresOfOptionalStmt_of_wellFormed : (branch : Option Stmt) →
    wellFormedBranch tokens branch → declaresOfOptionalStmt branch = []
  | none, _ => by simp [declaresOfOptionalStmt]
  | some branch, formed => by
      have nothing := branch.overt_of_wellFormed formed.1
      rw [Stmt.Overt, formed.2] at nothing
      simp [declaresOfOptionalStmt, nothing]

end

end WellFormed

/-! ## Addresses do not matter -/

mutual

theorem Stmt.declares_cleared : (stmt : Stmt) → stmt.cleared.declares = stmt.declares
  | .conditional _ thenBranch elseBranch _ => by
      simp [Stmt.cleared, Stmt.declares, thenBranch.declares_cleared,
        declaresOfOptionalStmt_cleared elseBranch]
  | .loop _ body _ _ => by simp [Stmt.cleared, Stmt.declares, body.declares_cleared]
  | .function ⟨_, _, _, _⟩ _ => by simp [Stmt.cleared, Stmt.declares, clearedFunction]
  | .expression _ _ => by simp [Stmt.cleared, Stmt.declares]
  | .print _ _ => by simp [Stmt.cleared, Stmt.declares]
  | .var _ _ _ => by simp [Stmt.cleared, Stmt.declares]
  | .block _ _ => by simp [Stmt.cleared, Stmt.declares]
  | .return _ _ => by simp [Stmt.cleared, Stmt.declares]
  | .class _ _ _ _ => by simp [Stmt.cleared, Stmt.declares]
  | .break _ => by simp [Stmt.cleared, Stmt.declares]
  | .continue _ => by simp [Stmt.cleared, Stmt.declares]

theorem declaresOfOptionalStmt_cleared : (stmt : Option Stmt) →
    declaresOfOptionalStmt (clearedOptionalStmt stmt) = declaresOfOptionalStmt stmt
  | none => by simp [clearedOptionalStmt]
  | some stmt => by simp [clearedOptionalStmt, declaresOfOptionalStmt, stmt.declares_cleared]

end

theorem Stmt.overt_cleared (stmt : Stmt) : stmt.cleared.Overt ↔ stmt.Overt := by
  rw [Stmt.Overt, Stmt.Overt, stmt.declares_cleared, Binding.declared?_cleared]

theorem overt_clearedStmts {stmts : List Stmt} :
    (∀ stmt ∈ clearedStmts stmts, stmt.Overt) ↔ ∀ stmt ∈ stmts, stmt.Overt := by
  induction stmts with
  | nil => simp [clearedStmts]
  | cons stmt rest inductionHypothesis =>
      simp [clearedStmts, stmt.overt_cleared, inductionHypothesis]

theorem declarationCount_clearedStmts (stmts : List Stmt) :
    declarationCount (clearedStmts stmts) = declarationCount stmts := by
  induction stmts with
  | nil => rfl
  | cons stmt rest inductionHypothesis =>
      simp [clearedStmts, declarationCount_cons, Binding.declared?_cleared, inductionHypothesis]

/-! ## What frames owe -/

/-- How many values the frame is still to define in the environment in front of it. -/
def Frame.owed {awaited outcome : Awaited} : Frame awaited outcome → Nat
  | .declare _ => 1
  | .sequence others => declarationCount others
  | _ => 0

/-- What the frame is to execute declares no more than it owes; only a body itself is executed in
sequence. -/
def Frame.Overt : {awaited outcome : Awaited} → Frame awaited outcome → Stack outcome → Prop
  | _, _, .sequence others, rest => (∀ stmt ∈ others, stmt.Overt) ∧ rest = .empty
  | _, _, .branch thenBranch elseBranch, _ =>
      thenBranch.declares = [] ∧ declaresOfOptionalStmt elseBranch = []
  | _, _, .condition loop, _ => loop.body.declares = []
  | _, _, .round loop, _ => loop.body.declares = []
  | _, _, .increment loop, _ => loop.body.declares = []
  | _, _, _, _ => True

namespace Stack

/-- How many values the frames are still to define in one environment, seen from the present one. -/
def owed (ref : EnvironmentRef) :
    {awaited : Awaited} → Option EnvironmentRef → Stack awaited → Nat
  | _, _, .empty => 0
  | _, scope, .push frame rest =>
      (if scope = some ref then frame.owed else 0) + rest.owed ref (frame.scopeBehind scope)

/-- The frames lead back to the environment, and in it they declare no more than they owe. -/
def Overt (ref : EnvironmentRef) :
    {awaited : Awaited} → Option EnvironmentRef → Stack awaited → Prop
  | _, scope, .empty => scope = some ref
  | _, scope, .push frame rest =>
      (scope = some ref → frame.Overt rest) ∧ rest.Overt ref (frame.scopeBehind scope)

/-- The slots of the environment, so many `present` ones that are about to be filled if it is the
present one, and what the frames owe add up to the total. -/
structure Fills (ref : EnvironmentRef) (total : Nat) (world : World) (present : Nat)
    {awaited : Awaited} (stack : Stack awaited) : Prop where
  inside : ref < world.forest.next
  count : world.forest.slotCount ref + (if world.scope = some ref then present else 0) +
    stack.owed ref world.scope = total
  overt : stack.Overt ref world.scope

end Stack

namespace World

/-- The environment has as many slots as before, and the present one is the same. -/
structure Spares (ref : EnvironmentRef) (before after : World) : Prop where
  scope : after.scope = before.scope
  slotCount : after.forest.slotCount ref = before.forest.slotCount ref
  grown : before.forest.next ≤ after.forest.next

variable {ref : EnvironmentRef} {world : World}

theorem Spares.trans {first second third : World} (one : Spares ref first second)
    (two : Spares ref second third) : Spares ref first third where
  scope := two.scope.trans one.scope
  slotCount := two.slotCount.trans one.slotCount
  grown := Nat.le_trans one.grown two.grown

theorem spares_of_same {after : World} (scope : after.scope = world.scope)
    (forest : after.forest = world.forest) : Spares ref world after where
  scope := scope
  slotCount := by rw [forest]
  grown := Nat.le_of_eq (by rw [forest])

theorem spares_assign (world : World) (reference : Reference) (value : Value) :
    Spares ref world (world.assign reference value) := by
  unfold assign
  split
  · unfold assignLocal
    split
    · exact spares_of_same rfl rfl
    · exact ⟨rfl, by simp, by simp⟩
  · exact spares_of_same rfl rfl

theorem spares_allocate (inside : ref < world.forest.next) (enclosing : Option EnvironmentRef)
    (values : Array Value) : Spares ref world (world.allocate enclosing values).2 where
  scope := rfl
  slotCount := by simp [allocate, Forest.slotCount_create, Nat.ne_of_lt inside]
  grown := by simp [allocate]

theorem spares_bindMethod (inside : ref < world.forest.next) (method : Function)
    (receiver : Instance) : Spares ref world (world.bindMethod method receiver).2 :=
  (spares_allocate inside method.closure #[.instance receiver]).trans (spares_of_same rfl rfl)

theorem forest_makeMethods (closure : Option EnvironmentRef) (methods : List FunctionDeclaration)
    (world : World) : (makeMethods closure methods world).2.forest = world.forest := by
  induction methods generalizing world with
  | nil => rfl
  | cons declaration rest inductionHypothesis => exact inductionHypothesis _

theorem spares_makeClass (name : String) (superclass : Option Class)
    (closure : Option EnvironmentRef) (methods : List FunctionDeclaration) :
    Spares ref world (world.makeClass name superclass closure methods).2 :=
  spares_of_same (samePlace_makeClass world name superclass closure methods).scope
    (forest_makeMethods closure methods world)

end World

namespace Stack.Fills

variable {ref : EnvironmentRef} {total present : Nat} {world after : World}
  {awaited outcome : Awaited}

theorem moved {stack : Stack awaited} (fills : stack.Fills ref total world present)
    (spares : World.Spares ref world after) : stack.Fills ref total after present where
  inside := Nat.lt_of_lt_of_le fills.inside spares.grown
  count := by
    rw [spares.slotCount, spares.scope]
    exact fills.count
  overt := by
    rw [spares.scope]
    exact fills.overt

/-- A frame that leaves no environment. What it owes was about to be filled. -/
theorem push {stack : Stack outcome} (frame : Frame awaited outcome)
    (fills : stack.Fills ref total world (present + frame.owed))
    (stays : frame.scopeBehind world.scope = world.scope)
    (overt : world.scope = some ref → frame.Overt stack) :
    (Stack.push frame stack).Fills ref total world present where
  inside := fills.inside
  count := by
    have count := fills.count
    simp only [owed, stays]
    split at count <;> simp_all
    omega
  overt := by
    refine ⟨overt, ?_⟩
    rw [stays]
    exact fills.overt

theorem pop {stack : Stack outcome} {frame : Frame awaited outcome}
    (fills : (Stack.push frame stack).Fills ref total world present)
    (stays : frame.scopeBehind world.scope = world.scope) :
    stack.Fills ref total world (present + frame.owed) where
  inside := fills.inside
  count := by
    have count := fills.count
    simp only [owed, stays] at count
    split at count <;> simp_all
    omega
  overt := by
    have overt := fills.overt.2
    rwa [stays] at overt

/-- Outside the environment nothing is about to be filled. -/
theorem elsewhere {stack : Stack awaited} (fills : stack.Fills ref total world present)
    (away : world.scope ≠ some ref) (other : Nat) : stack.Fills ref total world other where
  inside := fills.inside
  count := by
    have count := fills.count
    rw [if_neg away] at count ⊢
    exact count
  overt := fills.overt

/-- The way back to the environment that was left. -/
theorem popLeave {previous : Option EnvironmentRef} {stack : Stack .flow}
    (fills : (Stack.push (.leave previous) stack).Fills ref total world 0) :
    stack.Fills ref total (world.leaveTo previous) 0 where
  inside := fills.inside
  count := by
    have count := fills.count
    simp only [owed, Frame.owed, Frame.scopeBehind, ite_self, Nat.add_zero, Nat.zero_add] at *
    exact count
  overt := fills.overt.2

/-- A new environment, out of which the stack leads back. -/
theorem enter {stack : Stack .flow} (fills : stack.Fills ref total world 0)
    (enclosing : Option EnvironmentRef) (values : Array Value) :
    (Stack.push (.leave world.scope) stack).Fills ref total (world.enter enclosing values) 0 where
  inside :=
    Nat.lt_of_lt_of_le fills.inside (World.spares_allocate fills.inside enclosing values).grown
  count := by
    have count := fills.count
    have same := (World.spares_allocate fills.inside enclosing values).slotCount
    simp only [ite_self, Nat.add_zero] at count ⊢
    simp only [owed, Frame.owed, Frame.scopeBehind, ite_self, Nat.zero_add]
    exact (congrArg (· + _) same).trans count
  overt := ⟨fun _ => trivial, fills.overt⟩

theorem not_entered (inside : ref < world.forest.next) (enclosing : Option EnvironmentRef)
    (values : Array Value) : (world.enter enclosing values).scope ≠ some ref :=
  fun same => Nat.ne_of_gt inside (Option.some.inj same)

/-- What was about to be filled is filled by a definition. -/
theorem define {stack : Stack awaited} (fills : stack.Fills ref total world (present + 1))
    (name : String) (value : Value) :
    stack.Fills ref total (world.define name value) present where
  inside := by
    have inside := fills.inside
    unfold World.define
    split <;> simpa using inside
  count := by
    have count := fills.count
    unfold World.define
    split
    · next none => simpa [none] using count
    · next scope found =>
        simp only [found, Option.some.injEq] at count
        simp only [Forest.slotCount_define fills.inside, found, Option.some.injEq,
          @eq_comm _ ref]
        split at count <;> simp_all
        omega
  overt := by
    rw [(World.samePlace_define world name value).scope]
    exact fills.overt

end Stack.Fills

/-! ## Steps -/

namespace Machine

/-- At this moment of the run the slots and what is owed add up. A fault ends the count, and so
does a flow that leaves the body early. -/
def Fills (ref : EnvironmentRef) (total : Nat) : Machine → Prop
  | .evaluate world _ stack => stack.Fills ref total world 0
  | .execute world stmt stack =>
      stack.Fills ref total world stmt.declared?.toList.length ∧
        (world.scope = some ref → stmt.Overt)
  | .answer world _ stack => stack.Fills ref total world 0
  | .finish world flow stack =>
      stack.Fills ref total world 0 ∨ flow ≠ .normal ∧ stack = .empty
  | .raise _ _ _ => True

variable {ref : EnvironmentRef} {total : Nat} {world : World}

/-- A part of a statement that declares nothing is executed. -/
theorem fills_execute {stack : Stack .flow} (fills : stack.Fills ref total world 0) {stmt : Stmt}
    (nothing : world.scope = some ref → stmt.declares = []) :
    (Machine.execute world stmt stack).Fills ref total := by
  by_cases here : world.scope = some ref
  · refine ⟨?_, fun _ => Stmt.overt_of_declares (nothing here)⟩
    rw [Stmt.declared?_of_declares (nothing here)]
    exact fills
  · exact ⟨fills.elsewhere here _, fun there => absurd there here⟩

theorem fills_ofResult {stack : Stack .value} (fills : stack.Fills ref total world 0)
    (result : Except Fault Value) : (ofResult world stack result).Fills ref total := by
  cases result with
  | error failure => trivial
  | ok found => exact fills

theorem fills_ofOperation {stack : Stack .value} (fills : stack.Fills ref total world 0)
    (span : Span) (result : Except Fault.Violation Value) :
    (ofOperation world span stack result).Fills ref total := by
  cases result with
  | error violation => trivial
  | ok found => exact fills

/-- The body itself, or statements in another environment. -/
theorem fills_statements {stack : Stack .flow} {body : List Stmt}
    (fills : stack.Fills ref total world (declarationCount body))
    (overt : world.scope = some ref → (∀ stmt ∈ body, stmt.Overt) ∧ stack = .empty) :
    (statements world stack body).Fills ref total := by
  cases body with
  | nil => exact .inl fills
  | cons first others =>
      rw [declarationCount_cons] at fills
      refine ⟨fills.push _ rfl fun here => ?_, fun here => (overt here).1 first (.head _)⟩
      exact ⟨fun stmt member => (overt here).1 stmt (.tail _ member), (overt here).2⟩

theorem fills_inEnvironment {stack : Stack .flow} (fills : stack.Fills ref total world 0)
    (enclosing : Option EnvironmentRef) (values : Array Value) (body : List Stmt) :
    (inEnvironment world enclosing values body stack).Fills ref total := by
  have away := Stack.Fills.not_entered fills.inside enclosing values
  exact fills_statements ((fills.enter enclosing values).elsewhere away _)
    fun here => absurd here away

theorem fills_enterFunction {stack : Stack .value} (fills : stack.Fills ref total world 0)
    (function : Function) (arguments : List Value) (span : Span) :
    (enterFunction world function arguments span stack).Fills ref total :=
  fills_inEnvironment (fills.push (.body function span) rfl fun _ => trivial)
    function.closure _ _

theorem fills_construct {stack : Stack .value} (fills : stack.Fills ref total world 0)
    (origin : Class) (arguments : List Value) (span : Span) :
    (construct world origin arguments span stack).Fills ref total := by
  have made : stack.Fills ref total (world.makeInstance origin).2 0 :=
    fills.moved (World.spares_of_same rfl rfl)
  simp only [construct]
  split
  · exact made
  · next initializer _ =>
      have pushed := made.push (.construct (world.makeInstance origin).1) rfl
        fun _ => trivial
      exact fills_enterFunction (pushed.moved (World.spares_bindMethod made.inside _ _)) _ _ span

theorem fills_callNative {stack : Stack .value} (fills : stack.Fills ref total world 0)
    (native : Native) (arguments : List Value) (span : Span) :
    (callNative world native arguments span stack).Fills ref total := by
  simp only [callNative]
  split
  · trivial
  · split
    · exact fills.moved (World.spares_of_same rfl rfl)
    · trivial

theorem fills_invoke {stack : Stack .value} (fills : stack.Fills ref total world 0)
    (callable : Callable) (arguments : List Value) (span : Span) :
    (invoke world callable arguments span stack).Fills ref total := by
  simp only [invoke]
  split
  · trivial
  · have deeper : stack.Fills ref total { world with callDepth := world.callDepth + 1 } 0 :=
      fills.moved (World.spares_of_same rfl rfl)
    have pushed := deeper.push .call rfl fun _ => trivial
    cases callable with
    | function function => exact fills_enterFunction pushed function arguments span
    | native native => exact fills_callNative pushed native arguments span
    | «class» origin => exact fills_construct pushed origin arguments span

theorem fills_callValue {stack : Stack .value} (fills : stack.Fills ref total world 0)
    (callee : Value) (arguments : List Value) (span : Span) :
    (callValue world callee arguments span stack).Fills ref total := by
  simp only [callValue]
  split
  · trivial
  · split
    · exact fills_invoke fills _ arguments span
    · trivial

theorem fills_methodOf {stack : Stack .value} (fills : stack.Fills ref total world 0)
    (origin : Class) (receiver : Instance) (name : Name) :
    (methodOf world origin receiver name stack).Fills ref total := by
  simp only [methodOf]
  split
  · next method _ =>
      have bound := fills.moved (World.spares_bindMethod fills.inside method receiver)
      simp only [boundMethod]
      split
      · exact fills_invoke bound _ [] name.span
      · exact bound
  · trivial

theorem fills_property {stack : Stack .value} (fills : stack.Fills ref total world 0)
    (object : Instance) (name : Name) : (property world object name stack).Fills ref total := by
  simp only [property]
  split
  · exact fills
  · exact fills_methodOf fills object.origin object name

theorem fills_superMethod {stack : Stack .value} (fills : stack.Fills ref total world 0)
    (address : Option Address) (name : Name) (span : Span) :
    (superMethod world address name span stack).Fills ref total := by
  unfold superMethod
  split
  · trivial
  · trivial
  · split
    · trivial
    · split
      · trivial
      · exact fills_methodOf fills _ _ name
      · trivial
    · trivial

theorem fills_beginExpr {stack : Stack .value} (fills : stack.Fills ref total world 0)
    (expr : Expr) : (beginExpr world stack expr).Fills ref total := by
  cases expr with
  | literal value span => exact fills
  | grouping inner span => exact fills
  | «variable» reference => exact fills_ofResult fills _
  | this address span =>
      cases address with
      | none => trivial
      | some address => exact fills_ofResult fills _
  | super address method span => exact fills_superMethod fills address method span
  | lambda function => exact fills.moved (World.spares_of_same rfl rfl)
  | _ => exact fills.push _ rfl fun _ => trivial

theorem fills_declareClass {stack : Stack .flow} (fills : stack.Fills ref total world 1)
    (name : Name) (superclass : Option Class) (closure : Option EnvironmentRef)
    (methods : List FunctionDeclaration) :
    (declareClass world name superclass closure methods stack).Fills ref total :=
  .inl ((fills.moved (World.spares_makeClass name.text superclass closure methods)).define
    name.text _)

theorem fills_executeClass {stack : Stack .flow} (fills : stack.Fills ref total world 1)
    (name : Name) (superclass : Option Reference) (methods : List FunctionDeclaration) :
    (executeClass world name superclass methods stack).Fills ref total := by
  unfold executeClass
  split
  · exact fills_declareClass fills name none world.scope methods
  · split
    · trivial
    · next inherited _ =>
        have allocated := World.spares_allocate fills.inside world.scope #[.class inherited]
        exact fills_declareClass (fills.moved allocated) name (some inherited) _ methods
    · trivial

theorem fills_beginStmt {stack : Stack .flow} {stmt : Stmt}
    (fills : (Machine.execute world stmt stack).Fills ref total) :
    (beginStmt world stack stmt).Fills ref total := by
  obtain ⟨fills, overt⟩ := fills
  cases stmt with
  | expression value span => exact fills.push _ rfl fun _ => trivial
  | print value span => exact fills.push _ rfl fun _ => trivial
  | var name initializer span =>
      cases initializer with
      | none => exact .inl (fills.define name.text .nil)
      | some initializer => exact fills.push (.declare name) rfl fun _ => trivial
  | block body span => exact fills_inEnvironment fills world.scope #[] body
  | conditional condition thenBranch elseBranch span =>
      refine fills.push _ rfl fun here => ?_
      simpa [Frame.Overt, Stmt.Overt, Stmt.declares, Stmt.declared?] using overt here
  | loop condition body increment span =>
      refine fills.push _ rfl fun here => ?_
      simpa [Frame.Overt, Stmt.Overt, Stmt.declares, Stmt.declared?] using overt here
  | function declaration span =>
      have made : World.Spares ref world (world.makeFunction declaration world.scope false).2 :=
        World.spares_of_same rfl rfl
      exact .inl ((fills.moved made).define declaration.name.text _)
  | «return» value span =>
      cases value with
      | none => exact .inl fills
      | some value => exact fills.push _ rfl fun _ => trivial
  | «class» name superclass methods span => exact fills_executeClass fills name superclass methods
  | «break» span => exact .inl fills
  | «continue» span => exact .inl fills

theorem fills_nextArgument {stack : Stack .value} (fills : stack.Fills ref total world 0)
    (callee : Value) (before : List Value) (others : List Expr) (span : Span) :
    (nextArgument world callee before others span stack).Fills ref total := by
  cases others with
  | nil => exact fills_callValue fills callee before.reverse span
  | cons first rest => exact fills.push _ rfl fun _ => trivial

theorem fills_testLoop {stack : Stack .flow} (fills : stack.Fills ref total world 0) {loop : Loop}
    (nothing : world.scope = some ref → loop.body.declares = []) :
    (testLoop world loop stack).Fills ref total :=
  fills.push _ rfl nothing

theorem fills_giveValue (found : Value) {outcome : Awaited} {frame : Frame .value outcome}
    {stack : Stack outcome} (fills : (Stack.push frame stack).Fills ref total world 0) :
    (giveValue world found frame stack).Fills ref total := by
  have overt := fills.overt.1
  cases frame with
  | assign target =>
      simp only [giveValue]
      split
      · trivial
      · exact (fills.pop rfl).moved (World.spares_assign world target found)
  | unary operator span => exact fills_ofOperation (fills.pop rfl) span _
  | leftOperand operator right span =>
      exact (fills.pop rfl).push (.rightOperand operator found span) rfl fun _ => trivial
  | rightOperand operator left span => exact fills_ofOperation (fills.pop rfl) span _
  | logical operator right =>
      simp only [giveValue]
      split <;> exact fills.pop rfl
  | callee arguments span => exact fills_nextArgument (fills.pop rfl) found [] arguments span
  | argument callee before others span =>
      exact fills_nextArgument (fills.pop rfl) callee (found :: before) others span
  | property name =>
      cases found with
      | «instance» object => exact fills_property (fills.pop rfl) object name
      | _ => trivial
  | fieldObject name value =>
      cases found with
      | «instance» object =>
          exact (fills.pop rfl).push (.fieldValue object name) rfl fun _ => trivial
      | _ => trivial
  | fieldValue object name => exact (fills.pop rfl).moved (World.spares_of_same rfl rfl)
  | discard => exact .inl (fills.pop rfl)
  | print span =>
      simp only [giveValue]
      split
      · trivial
      · exact .inl ((fills.pop rfl).moved (World.spares_of_same rfl rfl))
  | declare name => exact .inl ((fills.pop rfl).define name.text found)
  | branch thenBranch elseBranch =>
      simp only [giveValue]
      split
      · exact fills_execute (fills.pop rfl) fun here => (overt here).1
      · split
        · exact fills_execute (fills.pop rfl) fun here => (overt here).2
        · exact .inl (fills.pop rfl)
  | condition loop =>
      simp only [giveValue]
      split
      · have pushed := (fills.pop rfl).push (.round loop) rfl overt
        exact fills_execute pushed overt
      · exact .inl (fills.pop rfl)
  | increment loop => exact fills_testLoop (fills.pop rfl) overt
  | «return» => exact .inl (fills.pop rfl)
  | construct object => exact fills.pop rfl
  | call => exact (fills.pop rfl).moved (World.spares_of_same rfl rfl)

theorem fills_endBody {stack : Stack .value} (fills : stack.Fills ref total world 0)
    (function : Function) (span : Span) (flow : Flow) :
    (endBody world function span flow stack).Fills ref total := by
  simp only [endBody]
  split
  · split
    · exact fills
    · trivial
  · split <;> exact fills

theorem fills_giveFlow (flow : Flow) {outcome : Awaited} {frame : Frame .flow outcome}
    {stack : Stack outcome} (fills : (Stack.push frame stack).Fills ref total world 0) :
    (giveFlow world flow frame stack).Fills ref total := by
  have overt := fills.overt.1
  cases frame with
  | round loop =>
      have popped := fills.pop rfl
      simp only [giveFlow]
      split
      · exact .inl popped
      · exact .inl popped
      · split
        · exact popped.push (.increment loop) rfl overt
        · exact fills_testLoop popped overt
  | sequence others =>
      have popped := fills.pop rfl
      rw [Nat.zero_add] at popped
      cases flow with
      | normal => exact fills_statements popped overt
      | _ =>
          by_cases here : world.scope = some ref
          · exact .inr ⟨by simp, (overt here).2⟩
          · exact .inl (popped.elsewhere here 0)
  | leave previous => exact .inl fills.popLeave
  | body function span => exact fills_endBody (fills.pop rfl) function span flow

theorem Fills.next {machine : Machine} (fills : machine.Fills ref total) :
    machine.next.Fills ref total := by
  cases machine with
  | evaluate world expr stack => exact fills_beginExpr fills expr
  | execute world stmt stack => exact fills_beginStmt fills
  | answer world found stack =>
      cases stack with
      | empty => exact fills
      | push frame rest => exact fills_giveValue found fills
  | finish world flow stack =>
      cases stack with
      | empty => exact fills
      | push frame rest =>
          obtain counted | ⟨_, impossible⟩ := fills
          · exact fills_giveFlow flow counted
          · cases impossible
  | raise world fault stack =>
      cases stack with
      | empty => exact fills
      | push frame rest => trivial

/-- What one step keeps, a run keeps. -/
theorem Fills.run {machine : Machine} (fills : machine.Fills ref total) (steps : Nat) :
    (machine.run steps).Fills ref total := by
  induction steps generalizing machine with
  | zero => exact fills
  | succ steps inductionHypothesis =>
      simp only [Machine.run]
      split
      · exact fills
      · exact inductionHypothesis fills.next

end Machine

/-! ## Blocks and bodies -/

/-- Alone, the statements of a body run through and end in the world. -/
def World.Completes (world : World) (body : List Stmt) (ended : World) : Prop :=
  ∃ steps, (Machine.statements world .empty body).run steps = .finish ended .normal .empty

/-- In the midst of a run statements complete as they do alone. -/
theorem Machine.statements_onto {world ended : World} {body : List Stmt}
    (completes : world.Completes body ended) (stack : Stack .flow) :
    ∃ steps, (statements world stack body).run steps = .finish ended .normal stack := by
  obtain ⟨steps, finishes⟩ := completes
  have done : ((statements world .empty body).run steps).isDone = true := by
    rw [finishes]
    rfl
  obtain ⟨last, same, going⟩ := exists_first_done (statements world .empty body) done
  have onto := run_onto (underneath stack) last going
  rw [same, finishes, ← onto_statements] at onto
  exact ⟨last, onto⟩

/-- A body that completes is back in the environment that it began in, which has one slot more for
each declaration in it. -/
theorem World.Completes.slotCount {world ended : World} {body : List Stmt} {ref : EnvironmentRef}
    (completes : world.Completes body ended) (overt : ∀ stmt ∈ body, stmt.Overt)
    (present : world.scope = some ref) (inside : ref < world.forest.next) :
    ended.scope = some ref ∧
      ended.forest.slotCount ref = world.forest.slotCount ref + declarationCount body := by
  have begins : (@Stack.empty .flow).Fills ref
      (world.forest.slotCount ref + declarationCount body) world (declarationCount body) :=
    ⟨inside, by simp [present, Stack.owed], present⟩
  obtain ⟨steps, finishes⟩ := completes
  have ends := (Machine.fills_statements begins fun _ => ⟨overt, rfl⟩).run steps
  rw [finishes] at ends
  obtain fills | ⟨other, _⟩ := ends
  · refine ⟨fills.overt, ?_⟩
    have count := fills.count
    rwa [ite_self, Nat.add_zero] at count
  · exact absurd rfl other

/-- Whatever addresses binding puts into the body: each execution that completes has filled one
slot for each declaration directly in it, behind the values that it was given. In the midst of a
run it completes as it does alone. -/
def FillsSlots (body : List Stmt) : Prop :=
  ∀ bound : List Stmt, clearedStmts bound = clearedStmts body →
    ∀ (world ended : World) (enclosing : Option EnvironmentRef) (values : Array Value),
      (world.enter enclosing values).Completes bound ended →
        ended.scope = some world.forest.next ∧
        ended.forest.slotCount world.forest.next = values.size + declarationCount body ∧
        ∀ stack, ∃ steps, (Machine.inEnvironment world enclosing values bound stack).run steps =
          .finish ended .normal (.push (.leave world.scope) stack)

theorem fillsSlots_of_wellFormed {tokens : List Token} {body : List Stmt}
    (formed : wellFormedStmts tokens body) : FillsSlots body := by
  intro bound same world ended enclosing values completes
  have overt : ∀ stmt ∈ bound, stmt.Overt := by
    rw [← overt_clearedStmts, same, overt_clearedStmts]
    exact fun stmt member => stmt.overt_of_wellFormed (wellFormedStmts_iff.mp formed stmt member)
  have sameCount : declarationCount bound = declarationCount body := by
    rw [← declarationCount_clearedStmts, same, declarationCount_clearedStmts]
  have inside : world.forest.next < (world.enter enclosing values).forest.next := by
    simp [World.enter, World.allocate]
  have given : (world.enter enclosing values).forest.slotCount world.forest.next = values.size := by
    simp [World.enter, World.allocate, Forest.slotCount_create]
  obtain ⟨back, count⟩ := completes.slotCount overt rfl inside
  rw [given, sameCount] at count
  exact ⟨back, count, fun stack => Machine.statements_onto completes _⟩

/-! ## Operators -/

/-- The operator has a result, or refuses its operands for what they are. -/
def Machine.Operates (machine : Machine) (world : World) (span : Span) (stack : Stack .value) :
    Prop :=
  (∃ result, machine = .answer world result stack) ∨
    ∃ violation ∈ [Fault.Violation.operandNotNumber, .operandsNotNumbers, .operandsNotAddable],
      machine = .raise world (.ofViolation violation span) stack

namespace Machine

theorem operates_ofOperation {world : World} {span : Span} {stack : Stack .value}
    {result : Except Fault.Violation Value}
    (refuses : ∀ violation, result = .error violation →
      violation ∈ [Fault.Violation.operandNotNumber, .operandsNotNumbers, .operandsNotAddable]) :
    (ofOperation world span stack result).Operates world span stack := by
  cases result with
  | ok found => exact .inl ⟨found, rfl⟩
  | error violation => exact .inr ⟨violation, refuses violation rfl, rfl⟩

theorem operates_unary (world : World) (operator : UnaryOperator) (operand : Value) (span : Span)
    (stack : Stack .value) :
    (giveValue world operand (.unary operator span) stack).Operates world span stack := by
  refine operates_ofOperation fun violation refused => ?_
  cases operator with
  | not => cases refused
  | negate => cases operand <;> cases refused <;> simp

theorem operates_binary (world : World) (operator : BinaryOperator) (left right : Value)
    (span : Span) (stack : Stack .value) :
    (giveValue world right (.rightOperand operator left span) stack).Operates world span stack := by
  refine operates_ofOperation fun violation refused => ?_
  have numbers {operation : Float → Float → Value}
      (refused : onNumbers operation left right = .error violation) :
      violation = .operandsNotNumbers := by
    unfold onNumbers at refused
    split at refused <;> simp_all
  cases operator with
  | add =>
      simp only [BinaryOperator.apply, addValues] at refused
      split at refused <;> simp_all
  | equal => cases refused
  | notEqual => cases refused
  | _ => simp [numbers refused]

end Machine

/-! ## Trees that were read -/

/-- Every tree that is read from tokens is well formed over them at every depth. So each execution
of a block or body in it that completes fills one slot for each declaration directly in it, and
no operator is unknown to the run. -/
theorem Grammar.trees_wellFormed (tokens : List Token) :
    (∀ program, Program.ofTokens tokens = .ok program →
      wellFormedStmts tokens program.statements ∧
        ∀ body ∈ bodiesOfStmts program.statements, FillsSlots body) ∧
    (∀ expr, Expr.ofTokens tokens = .ok expr →
      expr.WellFormed tokens ∧ ∀ body ∈ expr.bodies, FillsSlots body) ∧
    ∀ world span stack,
      (∀ operator operand,
        (Machine.giveValue world operand (.unary operator span) stack).Operates
          world span stack) ∧
      ∀ operator left right,
        (Machine.giveValue world right (.rightOperand operator left span) stack).Operates
          world span stack := by
  refine ⟨fun program read => ?_, fun expr read => ?_, fun world span stack => ⟨?_, ?_⟩⟩
  · have formed := Program.wellFormed_of_ofTokens read
    exact ⟨formed, fun body member => fillsSlots_of_wellFormed
      (wellFormed_bodiesOfStmts program.statements formed body member)⟩
  · have formed := Expr.wellFormed_of_ofTokens read
    exact ⟨formed, fun body member => fillsSlots_of_wellFormed
      (expr.wellFormed_bodies formed body member)⟩
  · exact fun operator operand => Machine.operates_unary world operator operand span stack
  · exact fun operator left right => Machine.operates_binary world operator left right span stack

/-- A block with three declarations and two statements that declare nothing. -/
def threeDeclarations : String :=
  "\x7b var a = 1; if (true) print 2; fun f() \x7b \x7d class A \x7b \x7d while (false) a = 1; \x7d"

/-- The world of the machine, if it has come to its end normally. -/
def Machine.completed? : Machine → Option World
  | .finish world .normal .empty => some world
  | _ => none

theorem World.completes_of_completed? {world : World} {body : List Stmt} {steps : Nat}
    (completed : ((Machine.statements world .empty body).run steps).completed?.isSome = true) :
    ∃ ended, world.Completes body ended := by
  unfold Machine.completed? at completed
  split at completed
  · next ended finishes => exact ⟨ended, steps, finishes⟩
  · cases completed

theorem Grammar.trees_wellFormed_threeDeclarations :
    let tokens := (Scan.of threeDeclarations).tokens
    let world := World.initial 2048 .working (.still 0)
    ∃ program, Program.ofTokens tokens = .ok program ∧
      wellFormedStmts tokens program.statements ∧
      ∃ body ∈ bodiesOfStmts program.statements, ∃ ended,
        (world.enter none #[]).Completes body ended ∧ ended.forest.slotCount 0 = 3 := by
  intro tokens world
  have isRead : (Program.ofTokens tokens).toOption.isSome = true := by decide +kernel
  obtain ⟨program, read⟩ : ∃ program, Program.ofTokens tokens = .ok program := by
    cases found : Program.ofTokens tokens with
    | ok program => exact ⟨program, rfl⟩
    | error errors => simp [found, Except.toOption] at isRead
  have runs : (Program.ofTokens tokens).toOption.any (fun program =>
      (bodiesOfStmts program.statements).any fun body => declarationCount body = 3 &&
        ((Machine.statements (world.enter none #[]) .empty body).run 30).completed?.isSome) =
      true := by decide +kernel
  rw [read] at runs
  obtain ⟨body, member, both⟩ := List.any_eq_true.mp runs
  obtain ⟨three, completed⟩ := Bool.and_eq_true_iff.mp both
  obtain ⟨ended, completes⟩ := World.completes_of_completed? completed
  obtain ⟨formed, fills⟩ := (trees_wellFormed tokens).1 program read
  obtain ⟨_, count, _⟩ := fills body member body rfl world ended none #[] completes
  rw [of_decide_eq_true three] at count
  exact ⟨program, read, formed, body, member, ended, completes, count⟩

end Lox
