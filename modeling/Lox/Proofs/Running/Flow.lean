import Lox.Proofs.Binding.Confined
import Lox.Proofs.Running.Contents

/-!
Contract: the flows that can reach a frame.

A flow is confined in an enclosure if a statement with this enclosure may end with it:
with a jump only inside a loop, with a return only inside a function, and inside an
initializer only without a value. A stack is confined if each of its frames awaits what
its enclosure allows: the frame of a loop lets no jump of its body out, and that of a
function no flow at all.

Main statement: `Machine.Confined.run`.

Owns: confined flows, frames, stacks and machines. Does not own: that the pass over
names yields confined trees.
-/

set_option autoImplicit false

namespace Lox

open Binding

/-- What binding achieves for the functions of a program: their jumps are confined. -/
def Demand.confined : Demand := fun declaration isInitializer =>
  ∃ kind : FunctionKind, kind ≠ .none ∧ (kind = .initializer ↔ isInitializer = true) ∧
    confinedFunction kind declaration

theorem confined_function {declaration : FunctionDeclaration}
    (confined : confinedFunction .function declaration) : Demand.confined declaration false :=
  ⟨.function, by decide, by simp, confined⟩

theorem confined_method {declaration : FunctionDeclaration}
    (confined : confinedFunction (methodKind declaration) declaration) :
    Demand.confined declaration declaration.isInitializer := by
  refine ⟨methodKind declaration, ?_, ?_, confined⟩
  · unfold methodKind
    split <;> decide
  · unfold methodKind
    cases declaration.isInitializer <;> decide

theorem confined_methods {methods : List FunctionDeclaration}
    (confined : confinedMethods methods) {method : FunctionDeclaration} (member : method ∈ methods) :
    Demand.confined method method.isInitializer := by
  induction methods with
  | nil => cases member
  | cons first rest inductionHypothesis =>
      obtain rfl | later := List.mem_cons.mp member
      · exact confined_method confined.1
      · exact inductionHypothesis confined.2 later

/-! ## Flows, frames and stacks -/

/-- A statement with this enclosure may end so. -/
def Flow.Confined (enclosure : Enclosure) : Flow → Prop
  | .normal => True
  | .break => enclosure.inLoop = true
  | .continue => enclosure.inLoop = true
  | .return value =>
      value.Meets .confined ∧ enclosure.kind ≠ .none ∧
        (enclosure.kind = .initializer → value = .nil)

/-- The jumps in the loop are confined. -/
def Loop.Confined (enclosure : Enclosure) (loop : Loop) : Prop :=
  loop.condition.Confined ∧ loop.body.Confined enclosure.round ∧
    confinedOptionalExpr loop.increment

/-- The frame may await its result in this enclosure. -/
def Frame.Confined (enclosure : Enclosure) {awaited outcome : Awaited} :
    Frame awaited outcome → Prop
  | .leftOperand _ right _ => right.Confined
  | .rightOperand _ left _ => left.Meets .confined
  | .logical _ right => right.Confined
  | .callee arguments _ => confinedExprs arguments
  | .argument called before others _ =>
      called.Meets .confined ∧ (∀ value ∈ before, value.Meets .confined) ∧ confinedExprs others
  | .fieldObject _ value => value.Confined
  | .branch thenBranch elseBranch =>
      thenBranch.Confined enclosure ∧ confinedOptionalStmt enclosure elseBranch
  | .condition loop => loop.Confined enclosure
  | .round loop => loop.Confined enclosure
  | .increment loop => loop.Confined enclosure
  | .return => enclosure.Returns true
  | .sequence others => confinedStmts enclosure others
  | .body function _ =>
      enclosure.inLoop = false ∧ enclosure.kind ≠ .none ∧
        (enclosure.kind = .initializer ↔ function.isInitializer = true)
  | .construct object => object.origin.Meets .confined
  | _ => True

/-- Behind the frame this is the enclosure: a body of a loop has that of the loop, and
that of a function any. -/
def Frame.Leads (enclosure behind : Enclosure) {awaited outcome : Awaited} :
    Frame awaited outcome → Prop
  | .round _ => enclosure = behind.round
  | .body _ _ => True
  | _ => behind = enclosure

/-- What runs for a new instance is an initializer. -/
def Frame.Initializes : {awaited outcome : Awaited} → Frame awaited outcome → Stack outcome → Prop
  | _, _, .body function _, .push (.construct _) _ => function.isInitializer = true
  | _, _, _, _ => True

/-- The stack may await a result in this enclosure, and its bottom in that of the base. -/
def Stack.Confined (base : Enclosure) : {awaited : Awaited} → Enclosure → Stack awaited → Prop
  | _, enclosure, .empty => enclosure = base
  | _, enclosure, .push frame rest =>
      frame.Confined enclosure ∧ frame.Initializes rest ∧
        ∃ behind, frame.Leads enclosure behind ∧ rest.Confined base behind

/-- In every part of the machine jumps are confined. -/
inductive Machine.Confined (base : Enclosure) : Machine → Prop
  | evaluate {world : World} {expr : Expr} {stack : Stack .value} {enclosure : Enclosure}
      (meets : world.Meets .confined) (tree : expr.Confined)
      (rest : stack.Confined base enclosure) : Machine.Confined base (.evaluate world expr stack)
  | execute {world : World} {stmt : Stmt} {stack : Stack .flow} {enclosure : Enclosure}
      (meets : world.Meets .confined) (tree : stmt.Confined enclosure)
      (rest : stack.Confined base enclosure) : Machine.Confined base (.execute world stmt stack)
  | answer {world : World} {value : Value} {stack : Stack .value} {enclosure : Enclosure}
      (meets : world.Meets .confined) (found : value.Meets .confined)
      (rest : stack.Confined base enclosure) : Machine.Confined base (.answer world value stack)
  | finish {world : World} {flow : Flow} {stack : Stack .flow} {enclosure : Enclosure}
      (meets : world.Meets .confined) (flows : flow.Confined enclosure)
      (rest : stack.Confined base enclosure) : Machine.Confined base (.finish world flow stack)
  | raise {world : World} {fault : Fault} {awaited : Awaited} {stack : Stack awaited}
      (meets : world.Meets .confined) : Machine.Confined base (.raise world fault stack)

/-! ## Steps -/

variable {base enclosure : Enclosure}

/-- Most frames go on in the enclosure in which they await their result. -/
theorem Stack.Confined.push {awaited outcome : Awaited} {frame : Frame awaited outcome}
    {stack : Stack outcome} (rest : stack.Confined base enclosure)
    (confined : frame.Confined enclosure) (initializes : frame.Initializes stack)
    (leads : frame.Leads enclosure enclosure) : (Stack.push frame stack).Confined base enclosure :=
  ⟨confined, initializes, enclosure, leads, rest⟩

namespace Machine

variable {world : World} {span : Span}

theorem confined_ofResult {stack : Stack .value} (meets : world.Meets .confined)
    (rest : stack.Confined base enclosure) {result : Except Fault Value}
    (known : ∀ value, result = .ok value → value.Meets .confined) :
    (ofResult world stack result).Confined base := by
  cases result with
  | ok value => exact .answer meets (known value rfl) rest
  | error fault => exact .raise meets

theorem confined_ofOperation {stack : Stack .value} (meets : world.Meets .confined)
    (rest : stack.Confined base enclosure) {result : Except Fault.Violation Value}
    (known : ∀ value, result = .ok value → value.Meets .confined) :
    (ofOperation world span stack result).Confined base := by
  cases result with
  | ok value => exact .answer meets (known value rfl) rest
  | error violation => exact .raise meets

theorem confined_statements {stack : Stack .flow} {body : List Stmt}
    (meets : world.Meets .confined) (trees : confinedStmts enclosure body)
    (rest : stack.Confined base enclosure) : (statements world stack body).Confined base := by
  cases body with
  | nil => exact .finish meets trivial rest
  | cons first others => exact .execute meets trees.1 (rest.push trees.2 trivial rfl)

theorem confined_inEnvironment {stack : Stack .flow} {body : List Stmt} {values : Array Value}
    (meets : world.Meets .confined) (known : ∀ value ∈ values, value.Meets .confined)
    (trees : confinedStmts enclosure body) (rest : stack.Confined base enclosure)
    (outer : Option EnvironmentRef) :
    (inEnvironment world outer values body stack).Confined base :=
  confined_statements (meets.enter outer known) trees (rest.push trivial trivial rfl)

/-! ## Calls -/

/-- The body of a function has an enclosure of its own. -/
theorem confined_enterFunction {stack : Stack .value} {function : Function}
    {arguments : List Value} (meets : world.Meets .confined) (callee : function.Meets .confined)
    (known : ∀ argument ∈ arguments, argument.Meets .confined)
    (initializes : (Frame.body function span).Initializes stack)
    (rest : stack.Confined base enclosure) :
    (enterFunction world function arguments span stack).Confined base := by
  obtain ⟨kind, inside, initializer, trees⟩ := callee
  have body := (confinedFunction_iff kind function.declaration).mp trees
  have awaits : (Stack.push (.body function span) stack).Confined base (.body kind) :=
    ⟨⟨rfl, inside, initializer⟩, initializes, enclosure, trivial, rest⟩
  have values : ∀ value ∈ arguments.toArray, value.Meets .confined := by
    intro value member
    exact known value (List.mem_toArray.mp member)
  exact confined_inEnvironment meets values body awaits function.closure

theorem confined_construct {stack : Stack .value} {origin : Class} {arguments : List Value}
    (meets : world.Meets .confined) (callee : origin.Meets .confined)
    (known : ∀ argument ∈ arguments, argument.Meets .confined)
    (rest : stack.Confined base enclosure) :
    (construct world origin arguments span stack).Confined base := by
  have made := meets.makeInstance origin
  simp only [construct]
  split
  · exact .answer made callee rest
  · next initializer found =>
      obtain ⟨confined, isInitializer⟩ := callee.initializer? found
      have bound := made.bindMethod initializer (world.makeInstance origin).1 callee
      have awaits : (Stack.push (.construct (world.makeInstance origin).1) stack).Confined base
          enclosure := rest.push callee trivial rfl
      exact confined_enterFunction bound confined known isInitializer awaits

theorem confined_callNative {stack : Stack .value} {native : Native} {arguments : List Value}
    (meets : world.Meets .confined) (known : ∀ argument ∈ arguments, argument.Meets .confined)
    (rest : stack.Confined base enclosure) :
    (callNative world native arguments span stack).Confined base := by
  simp only [callNative]
  split
  · exact .raise meets
  · next operation present =>
      have ticked := meets.tick
      split
      · next result answered =>
          exact .answer ticked ((meets.natives _ _ present).meets known answered) rest
      · exact .raise ticked

theorem confined_invoke {stack : Stack .value} (callable : Callable) {arguments : List Value}
    (meets : world.Meets .confined) (callee : callable.Meets .confined)
    (known : ∀ argument ∈ arguments, argument.Meets .confined)
    (rest : stack.Confined base enclosure) :
    (invoke world callable arguments span stack).Confined base := by
  simp only [invoke]
  split
  · exact .raise meets
  · have deeper : World.Meets .confined { world with callDepth := world.callDepth + 1 } :=
      meets.moved rfl rfl rfl rfl
    have awaits : (Stack.push .call stack).Confined base enclosure :=
      rest.push trivial trivial rfl
    cases callable with
    | function function => exact confined_enterFunction deeper callee known trivial awaits
    | native native => exact confined_callNative deeper known awaits
    | «class» origin => exact confined_construct deeper callee known awaits

theorem confined_callValue {stack : Stack .value} {callee : Value} {arguments : List Value}
    (meets : world.Meets .confined) (found : callee.Meets .confined)
    (known : ∀ argument ∈ arguments, argument.Meets .confined)
    (rest : stack.Confined base enclosure) :
    (callValue world callee arguments span stack).Confined base := by
  simp only [callValue]
  split
  · exact .raise meets
  · next callable called =>
      split
      · exact confined_invoke callable meets (found.callable? called) known rest
      · exact .raise meets

/-! ## Properties -/

theorem confined_methodOf {stack : Stack .value} {origin : Class} {receiver : Instance}
    (meets : world.Meets .confined) (methods : origin.Meets .confined)
    (made : receiver.origin.Meets .confined) (rest : stack.Confined base enclosure) (name : Name) :
    (methodOf world origin receiver name stack).Confined base := by
  simp only [methodOf]
  split
  · next method found =>
      have bound := meets.bindMethod method receiver made
      have confined : Function.Meets .confined (world.bindMethod method receiver).1 :=
        (methods.method? found).meets
      simp only [boundMethod]
      split
      · exact confined_invoke (.function (world.bindMethod method receiver).1) bound confined
          (by simp) rest
      · exact .answer bound confined rest
  · exact .raise meets

theorem confined_property {stack : Stack .value} {object : Instance}
    (meets : world.Meets .confined) (made : object.origin.Meets .confined)
    (rest : stack.Confined base enclosure) (name : Name) :
    (property world object name stack).Confined base := by
  simp only [property]
  split
  · next found present => exact .answer meets (meets.field? present) rest
  · exact confined_methodOf meets made made rest name

theorem confined_superMethod {stack : Stack .value} (meets : world.Meets .confined)
    (rest : stack.Confined base enclosure) (address : Option Address) (name : Name) :
    (superMethod world address name span stack).Confined base := by
  unfold superMethod
  split
  · exact .raise meets
  · exact .raise meets
  · split
    · exact .raise meets
    · next superclass atSuper =>
        split
        · exact .raise meets
        · next receiver atThis =>
            have methods : superclass.Meets .confined := meets.readLocal atSuper
            have made : receiver.origin.Meets .confined := meets.readLocal atThis
            exact confined_methodOf meets methods made rest name
        · exact .raise meets
    · exact .raise meets

/-! ## Expressions and statements -/

theorem confined_beginExpr {stack : Stack .value} {expr : Expr} (meets : world.Meets .confined)
    (tree : expr.Confined) (rest : stack.Confined base enclosure) :
    (beginExpr world stack expr).Confined base := by
  cases expr with
  | literal value span => exact .answer meets value.meets_value rest
  | grouping inner span => exact .evaluate meets tree rest
  | «variable» reference => exact confined_ofResult meets rest fun _ reads => meets.readVariable reads
  | assign target value span => exact .evaluate meets tree (rest.push trivial trivial rfl)
  | unary operator operand span => exact .evaluate meets tree (rest.push trivial trivial rfl)
  | binary operator left right span =>
      exact .evaluate meets tree.1 (rest.push tree.2 trivial rfl)
  | logical operator left right span =>
      exact .evaluate meets tree.1 (rest.push tree.2 trivial rfl)
  | call callee arguments span => exact .evaluate meets tree.1 (rest.push tree.2 trivial rfl)
  | get object name => exact .evaluate meets tree (rest.push trivial trivial rfl)
  | set object name value span => exact .evaluate meets tree.1 (rest.push tree.2 trivial rfl)
  | this address span =>
      cases address with
      | none => exact .raise meets
      | some address => exact confined_ofResult meets rest fun _ reads => meets.readLocal reads
  | super address method span => exact confined_superMethod meets rest address method
  | lambda function =>
      have made : (world.makeFunction function world.scope false).2.Meets .confined :=
        meets.moved rfl rfl rfl rfl
      exact .answer made (confined_function tree) rest

theorem confined_declareClass {stack : Stack .flow} {methods : List FunctionDeclaration}
    {superclass : Option Class} (meets : world.Meets .confined)
    (trees : confinedMethods methods) (inherited : ∀ cls ∈ superclass, cls.Meets .confined)
    (rest : stack.Confined base enclosure) (name : Name) (closure : Option EnvironmentRef) :
    (declareClass world name superclass closure methods stack).Confined base := by
  obtain ⟨after, made⟩ := meets.makeClass name.text closure
    (fun _ member => confined_methods trees member) inherited
  exact .finish (after.define name.text made) trivial rest

theorem confined_executeClass {stack : Stack .flow} {methods : List FunctionDeclaration}
    (meets : world.Meets .confined) (trees : confinedMethods methods)
    (rest : stack.Confined base enclosure) (name : Name) (superclass : Option Reference) :
    (executeClass world name superclass methods stack).Confined base := by
  unfold executeClass
  split
  · exact confined_declareClass meets trees (by simp) rest name world.scope
  · split
    · exact .raise meets
    · next inherited reads =>
        have known : inherited.Meets .confined := meets.readVariable reads
        have allocated := meets.allocate world.scope #[.class inherited] (by
          intro value member
          obtain rfl : value = .class inherited := by simpa using member
          exact known)
        exact confined_declareClass allocated trees (by simpa using known) rest name _
    · exact .raise meets

theorem confined_beginStmt {stack : Stack .flow} {stmt : Stmt} (meets : world.Meets .confined)
    (tree : stmt.Confined enclosure) (rest : stack.Confined base enclosure) :
    (beginStmt world stack stmt).Confined base := by
  cases stmt with
  | expression value span => exact .evaluate meets tree (rest.push trivial trivial rfl)
  | print value span => exact .evaluate meets tree (rest.push trivial trivial rfl)
  | var name initializer span =>
      cases initializer with
      | none => exact .finish (meets.define name.text trivial) trivial rest
      | some initializer => exact .evaluate meets tree (rest.push trivial trivial rfl)
  | block body span => exact confined_inEnvironment meets (by simp) tree rest world.scope
  | conditional condition thenBranch elseBranch span =>
      exact .evaluate meets tree.1 (rest.push tree.2 trivial rfl)
  | loop condition body increment span =>
      have loop : Loop.Confined enclosure ⟨condition, body, increment⟩ := tree
      exact .evaluate meets tree.1 (rest.push loop trivial rfl)
  | function declaration span =>
      have made : (world.makeFunction declaration world.scope false).2.Meets .confined :=
        meets.moved rfl rfl rfl rfl
      exact .finish (made.define declaration.name.text (confined_function tree)) trivial rest
  | «return» value span =>
      obtain ⟨⟨inside, initializer⟩, tree⟩ := tree
      cases value with
      | none => exact .finish meets ⟨trivial, inside, fun _ => rfl⟩ rest
      | some value => exact .evaluate meets tree (rest.push ⟨inside, initializer⟩ trivial rfl)
  | «class» name superclass methods span =>
      exact confined_executeClass meets tree rest name superclass
  | «break» span => exact .finish meets tree rest
  | «continue» span => exact .finish meets tree rest

/-! ## Frames -/

theorem confined_testLoop {stack : Stack .flow} {loop : Loop} (meets : world.Meets .confined)
    (trees : loop.Confined enclosure) (rest : stack.Confined base enclosure) :
    (testLoop world loop stack).Confined base :=
  .evaluate meets trees.1 (rest.push trees trivial rfl)

theorem confined_nextArgument {stack : Stack .value} {callee : Value} {before : List Value}
    {others : List Expr} (meets : world.Meets .confined) (found : callee.Meets .confined)
    (known : ∀ value ∈ before, value.Meets .confined) (trees : confinedExprs others)
    (rest : stack.Confined base enclosure) :
    (nextArgument world callee before others span stack).Confined base := by
  cases others with
  | nil =>
      refine confined_callValue meets found ?_ rest
      intro argument member
      exact known argument (List.mem_reverse.mp member)
  | cons first others =>
      exact .evaluate meets trees.1 (rest.push ⟨found, known, trees.2⟩ trivial rfl)

theorem confined_giveValue {found : Value} {outcome : Awaited} {frame : Frame .value outcome}
    {stack : Stack outcome} (meets : world.Meets .confined) (known : found.Meets .confined)
    (awaits : (Stack.push frame stack).Confined base enclosure) :
    (giveValue world found frame stack).Confined base := by
  obtain ⟨confined, _, behind, leads, rest⟩ := awaits
  cases frame with
  | assign target =>
      simp only [giveValue]
      split
      · exact .raise meets
      · exact .answer (meets.assign target known) known rest
  | unary operator span =>
      exact confined_ofOperation meets rest fun _ applied => UnaryOperator.meets_apply applied
  | leftOperand operator right span =>
      exact .evaluate meets confined (rest.push known trivial rfl)
  | rightOperand operator left span =>
      exact confined_ofOperation meets rest fun _ applied => BinaryOperator.meets_apply applied
  | logical operator right =>
      simp only [giveValue]
      split
      · exact .answer meets known rest
      · exact .evaluate meets confined rest
  | callee arguments span => exact confined_nextArgument meets known (by simp) confined rest
  | argument callee before others span =>
      obtain ⟨callable, arguments, trees⟩ := confined
      refine confined_nextArgument meets callable ?_ trees rest
      intro value member
      obtain rfl | earlier := List.mem_cons.mp member
      · exact known
      · exact arguments value earlier
  | property name =>
      cases found with
      | «instance» object => exact confined_property meets known rest name
      | _ => exact .raise meets
  | fieldObject name value =>
      cases found with
      | «instance» object => exact .evaluate meets confined (rest.push trivial trivial rfl)
      | _ => exact .raise meets
  | fieldValue object name => exact .answer (meets.setField object name.text known) known rest
  | discard => exact .finish meets trivial rest
  | print span =>
      simp only [giveValue]
      split
      · exact .raise meets
      · exact .finish (meets.moved rfl rfl rfl rfl) trivial rest
  | declare name => exact .finish (meets.define name.text known) trivial rest
  | branch thenBranch elseBranch =>
      obtain rfl : behind = enclosure := leads
      simp only [giveValue]
      split
      · exact .execute meets confined.1 rest
      · cases elseBranch with
        | some stmt => exact .execute meets confined.2 rest
        | none => exact .finish meets trivial rest
  | condition loop =>
      obtain rfl : behind = enclosure := leads
      simp only [giveValue]
      split
      · have round : (Stack.push (.round loop) stack).Confined base behind.round :=
          ⟨confined, trivial, behind, rfl, rest⟩
        exact .execute meets confined.2.1 round
      · exact .finish meets trivial rest
  | increment loop =>
      obtain rfl : behind = enclosure := leads
      exact confined_testLoop meets confined rest
  | «return» =>
      obtain rfl : behind = enclosure := leads
      have noValue : behind.kind = .initializer → found = .nil := fun initializer =>
        nomatch confined.2 initializer
      exact .finish meets ⟨known, confined.1, noValue⟩ rest
  | construct object => exact .answer meets confined rest
  | call => exact .answer (meets.moved rfl rfl rfl rfl) known rest

theorem confined_endBody {stack : Stack .value} {function : Function} {flow : Flow}
    (meets : world.Meets .confined) (flows : flow.Confined enclosure) {behind : Enclosure}
    (rest : stack.Confined base behind) :
    (endBody world function span flow stack).Confined base := by
  simp only [endBody]
  split
  · split
    · next receiver found =>
        obtain ⟨ref, _, there⟩ := Option.bind_eq_some_iff.mp found
        exact .answer meets (meets.getAt? there) rest
    · exact .raise meets
  · cases flow with
    | «return» value => exact .answer meets flows.1 rest
    | _ => exact .answer meets trivial rest

/-- A loop ends with what may leave it: a jump of its body has been used up. -/
theorem confined_giveFlow {flow : Flow} {outcome : Awaited} {frame : Frame .flow outcome}
    {stack : Stack outcome} (meets : world.Meets .confined) (flows : flow.Confined enclosure)
    (awaits : (Stack.push frame stack).Confined base enclosure) :
    (giveFlow world flow frame stack).Confined base := by
  obtain ⟨confined, _, behind, leads, rest⟩ := awaits
  cases frame with
  | round loop =>
      obtain rfl : enclosure = behind.round := leads
      have goesOn : (giveFlow world .normal (.round loop) stack).Confined base := by
        have trees : loop.Confined behind := confined
        simp only [giveFlow]
        split
        · next increment present =>
            have tree := trees.2.2
            rw [present] at tree
            exact .evaluate meets tree (rest.push trees trivial rfl)
        · exact confined_testLoop meets trees rest
      cases flow with
      | normal => exact goesOn
      | «break» => exact .finish meets trivial rest
      | «continue» => exact goesOn
      | «return» value =>
          have returns : (Flow.return value).Confined behind := flows
          exact .finish meets returns rest
  | sequence others =>
      obtain rfl : behind = enclosure := leads
      cases flow with
      | normal => exact confined_statements meets confined rest
      | _ => exact .finish meets flows rest
  | leave previous =>
      obtain rfl : behind = enclosure := leads
      exact .finish (meets.moved rfl rfl rfl rfl) flows rest
  | body function span => exact confined_endBody meets flows rest

/-! ## Runs -/

theorem Confined.next {machine : Machine} (confined : machine.Confined base) :
    machine.next.Confined base := by
  cases confined with
  | evaluate meets tree rest => exact confined_beginExpr meets tree rest
  | execute meets tree rest => exact confined_beginStmt meets tree rest
  | @answer _ _ stack _ meets found rest =>
      cases stack with
      | empty => exact .answer meets found rest
      | push frame stack => exact confined_giveValue meets found rest
  | @finish _ _ stack _ meets flows rest =>
      cases stack with
      | empty => exact .finish meets flows rest
      | push frame stack => exact confined_giveFlow meets flows rest
  | @raise _ _ _ stack meets =>
      cases stack with
      | empty => exact .raise meets
      | push frame stack =>
          cases frame with
          | leave previous => exact .raise (meets.moved rfl rfl rfl rfl)
          | call => exact .raise (meets.moved rfl rfl rfl rfl)
          | _ => exact .raise meets

theorem Confined.run {machine : Machine} (confined : machine.Confined base) (steps : Nat) :
    (machine.run steps).Confined base := by
  induction steps generalizing machine with
  | zero => exact confined
  | succ steps inductionHypothesis =>
      simp only [Machine.run]
      split
      · exact confined
      · exact inductionHypothesis confined.next

end Machine

end Lox
