import Lox.Proofs.Lexical.Step
import Lox.Proofs.Running.CallLimit

/-!
Contract: where an empty cell is met, and at which address it shows.

A cell is empty from the declaration of its name to the end of the initializer. Only a variable
that is read or assigned by its name can meet such a cell: a reference in an expression, the
superclass of a class, the target of an assignment. `this` and `super` have their values from the
start. So the fault as which an empty cell shows gives the address of the name from the place at
which it is met.

Main statement: `Mirrors.emptyCell_next`.

Owns: the addresses of empty cells. Does not own: the simulation.
-/

set_option autoImplicit false

namespace Lox.Lexical

open Binding

namespace Machine

/-- The name of the empty cell that the machine has met. -/
def emptyCell? : Machine → Option String
  | .raise _ (.emptyCell name _) _ => some name
  | _ => none

/-! ## What meets no empty cell -/

theorem emptyCell?_statements (world : World) (stack : Stack .flow) (body : List Stmt) :
    (statements world stack body).emptyCell? = none := by
  cases body <;> rfl

theorem emptyCell?_enterFunction (world : World) (function : Function) (arguments : List Value)
    (span : Span) (stack : Stack .value) :
    (enterFunction world function arguments span stack).emptyCell? = none :=
  emptyCell?_statements _ _ _

theorem emptyCell?_ofOperation (world : World) (span : Span) (stack : Stack .value)
    (result : Except Fault.Violation Value) :
    (ofOperation world span stack result).emptyCell? = none := by
  cases result <;> rfl

theorem emptyCell?_start (world : World) (callable : Callable) (arguments : List Value)
    (span : Span) (stack : Stack .value) :
    (start world callable arguments span stack).emptyCell? = none := by
  cases callable with
  | function function => exact emptyCell?_enterFunction world function arguments span stack
  | native native =>
      simp only [start, callNative]
      split
      · rfl
      · split <;> rfl
  | «class» origin =>
      simp only [start, construct]
      split
      · rfl
      · exact emptyCell?_enterFunction _ _ _ _ _

theorem emptyCell?_invoke (world : World) (callable : Callable) (arguments : List Value)
    (span : Span) (stack : Stack .value) :
    (invoke world callable arguments span stack).emptyCell? = none := by
  unfold invoke
  split
  · rfl
  · exact emptyCell?_start _ callable arguments span _

theorem emptyCell?_nextArgument (world : World) (callee : Value) (before : List Value)
    (others : List Expr) (span : Span) (stack : Stack .value) :
    (nextArgument world callee before others span stack).emptyCell? = none := by
  cases others with
  | nil =>
      simp only [nextArgument, callValue]
      split
      · rfl
      · split
        · exact emptyCell?_invoke world _ _ span stack
        · rfl
  | cons first rest => rfl

theorem emptyCell?_methodOf (world : World) (origin : Class) (receiver : Instance) (name : Name)
    (stack : Stack .value) : (methodOf world origin receiver name stack).emptyCell? = none := by
  simp only [methodOf]
  split
  · simp only [boundMethod]
    split
    · exact emptyCell?_invoke _ _ [] name.span stack
    · rfl
  · rfl

theorem emptyCell?_property (world : World) (object : Instance) (name : Name)
    (stack : Stack .value) : (property world object name stack).emptyCell? = none := by
  simp only [property]
  split
  · rfl
  · exact emptyCell?_methodOf world object.origin object name stack

end Machine

/-! ## Variables -/

variable {outlet : Outlet} {world : World}

/-- The empty cell that a variable meets shows at the address of the variable. -/
theorem readVariable_of_emptyCell (ready : world.Ready outlet) {reference : Reference}
    (bound : reference.Bound world.setting.context) {name : String} {span : Span}
    (meets : world.read reference.name.text reference.name.span = .error (.emptyCell name span)) :
    ∃ address, addressIn name world.setting.context = some address ∧
      world.erase.readVariable reference =
        .error (.ofBreach (.missingLocal address.depth address.slot) span) := by
  have agree := World.agree_readVariable ready bound
  rw [meets] at agree
  obtain ⟨rfl, rfl⟩ : reference.name.text = name ∧ reference.name.span = span := by
    simp only [World.read, World.readFrom] at meets
    split at meets
    · split at meets
      · cases meets
      · simpa using meets
    · split at meets <;> simp at meets
  cases read : world.erase.readVariable reference with
  | ok value =>
      rw [read] at agree
      exact agree.elim
  | error fault =>
      rw [read] at agree
      unfold Lox.World.readVariable at read
      rw [bound] at read
      cases addressed : addressIn reference.name.text world.setting.context with
      | some address =>
          simp only [addressed, Lox.World.readLocal] at read
          split at read
          · cases read
          · exact ⟨address, rfl, read.symm⟩
      | none =>
          simp only [addressed] at read
          obtain ⟨depth, slot, rfl⟩ := agree
          split at read <;> simp [Fault.ofBreach, Fault.ofViolation] at read

/-- The empty cell that an assignment meets shows at the address of the variable. -/
theorem assignmentFault?_of_emptyCell (ready : world.Ready outlet) {target : Reference}
    (bound : target.Bound world.setting.context) (plain : Plain target.name.text) {name : String}
    {span : Span}
    (meets : world.assignmentMishap? target.name.text target.name.span =
      some (.emptyCell name span)) :
    ∃ address, addressIn name world.setting.context = some address ∧
      world.erase.assignmentFault? target =
        some (.ofBreach (.missingLocal address.depth address.slot) span) := by
  have read : world.read target.name.text target.name.span = .error (.emptyCell name span) := by
    simp only [World.assignmentMishap?] at meets
    split at meets
    · cases meets
    · next mishap found => rw [found, Option.some.inj meets]
  obtain ⟨address, addressed, readThere⟩ := readVariable_of_emptyCell ready bound read
  obtain ⟨mishap, fault, expected, found, shows⟩ | ⟨expected, _⟩ := World.assign_spec ready bound plain
  · rw [meets] at expected
    obtain rfl := Option.some.inj expected
    refine ⟨address, addressed, found.trans (congrArg some ?_)⟩
    unfold Lox.World.assignmentFault? at found
    unfold Lox.World.readVariable at readThere
    cases addressThere : target.address with
    | some other =>
        simp only [addressThere, Lox.World.localFault?, Lox.World.readLocal] at found readThere
        split at found
        · cases found
        · split at readThere
          · cases readThere
          · rw [← Option.some.inj found]
            exact Except.error.inj readThere
    | none =>
        simp only [addressThere] at readThere
        split at readThere <;> simp [Fault.ofBreach, Fault.ofViolation] at readThere
  · rw [meets] at expected
    cases expected

/-! ## Steps -/

/-- The cell is met by a variable, and shows at the address of the variable. -/
def Met (name : String) (machine : Machine) (shadow : Lox.Machine) : Prop :=
  ∃ address span, addressIn name (viewFrom machine.world.place) = some address ∧
    shadow.fault? = some (.ofBreach (.missingLocal address.depth address.slot) span)

theorem met_beginExpr {expr : Expr} {stack : Stack .value} (ready : world.Ready outlet)
    (bound : expr.Bound world.setting.context) {name : String}
    (meets : (Machine.beginExpr world stack expr).emptyCell? = some name) :
    Met name (Machine.beginExpr world stack expr) (Lox.Machine.beginExpr world.erase stack expr) := by
  cases expr with
  | «variable» reference =>
      simp only [Machine.beginExpr] at meets ⊢
      simp only [Lox.Machine.beginExpr]
      generalize found : world.read reference.name.text reference.name.span = result at meets ⊢
      cases result with
      | ok value => cases meets
      | error mishap =>
          cases mishap with
          | emptyCell other span =>
              obtain rfl := Option.some.inj meets
              obtain ⟨address, addressed, read⟩ := readVariable_of_emptyCell ready bound found
              rw [read]
              exact ⟨address, span, addressed, rfl⟩
          | _ => cases meets
  | this address span =>
      obtain ⟨receiver, rfl⟩ := bound
      obtain ⟨depth, addressed⟩ := receiver.address
      obtain ⟨object, found, _⟩ := World.read_this ready addressed span
      simp only [Machine.beginExpr, found] at meets
      cases meets
  | super address method span =>
      obtain ⟨depth, superAddress, thisAddress⟩ := bound.1.addresses
      obtain ⟨superclass, superFound, _⟩ := World.read_super ready superAddress span
      obtain ⟨receiver, thisFound, _⟩ := World.read_this ready thisAddress span
      simp only [Machine.beginExpr, Machine.superMethod, superFound, thisFound,
        Machine.emptyCell?_methodOf] at meets
      cases meets
  | _ => cases meets

theorem met_executeClass {word : Name} {superclass : Option Reference}
    {methods : List FunctionDeclaration} {stack : Stack .flow} (ready : world.Ready outlet)
    (bound : ∀ reference ∈ superclass, reference.Bound world.setting.context) {name : String}
    (meets : (Machine.executeClass world word superclass methods stack).emptyCell? = some name) :
    Met name (Machine.executeClass world word superclass methods stack)
      (Lox.Machine.executeClass world.erase word superclass methods stack) := by
  cases superclass with
  | none => cases meets
  | some reference =>
      simp only [Machine.executeClass] at meets ⊢
      simp only [Lox.Machine.executeClass]
      generalize found : world.read reference.name.text reference.name.span = result at meets ⊢
      cases result with
      | ok value => cases value <;> cases meets
      | error mishap =>
          cases mishap with
          | emptyCell other span =>
              obtain rfl := Option.some.inj meets
              obtain ⟨address, addressed, read⟩ :=
                readVariable_of_emptyCell ready (bound reference rfl) found
              rw [read]
              exact ⟨address, span, addressed, rfl⟩
          | _ => cases meets

theorem met_beginStmt {stmt : Stmt} {stack : Stack .flow} (ready : world.Ready outlet)
    (noneWaits : world.setting.pending = none) (bound : stmt.Bound world.setting.context)
    (fits : world.Fits
      { world.setting with context := stmt.contextAfter world.setting.context } stack)
    {name : String} (meets : (Machine.beginStmt world stack stmt).emptyCell? = some name) :
    Met name (Machine.beginStmt world stack stmt) (Lox.Machine.beginStmt world.erase stack stmt) := by
  cases stmt with
  | var _ initializer _ => cases initializer <;> cases meets
  | block body span => cases (Machine.emptyCell?_statements _ _ body).symm.trans meets
  | «return» value _ => cases value <;> cases meets
  | «class» word superclass methods span =>
      obtain ⟨announced, announces⟩ : ∃ announced, world.announce word.text = announced := ⟨_, rfl⟩
      obtain ⟨readyAfter, _, context, _, erased⟩ :=
        announce_spec ready noneWaits bound.1 fits announces
      have boundSuperclass : ∀ reference ∈ superclass,
          reference.Bound announced.setting.context := by
        rw [context]
        exact bound.2.1
      simp only [Machine.beginStmt, announces] at meets ⊢
      simp only [Lox.Machine.beginStmt, ← erased]
      exact met_executeClass readyAfter boundSuperclass meets
  | _ => cases meets

theorem met_giveValue {value : Value} {outcome : Awaited} {frame : Frame .value outcome}
    {stack : Stack outcome} (ready : world.Ready outlet)
    (fits : world.Fits world.setting (.push frame stack)) {name : String}
    (meets : (Machine.giveValue world value frame stack).emptyCell? = some name) :
    Met name (Machine.giveValue world value frame stack)
      (Lox.Machine.giveValue world.erase value frame stack) := by
  cases frame with
  | assign target =>
      obtain ⟨bound, plain⟩ := fits.1
      simp only [Machine.giveValue] at meets ⊢
      simp only [Lox.Machine.giveValue]
      generalize found :
        world.assignmentMishap? target.name.text target.name.span = result at meets ⊢
      cases result with
      | none => cases meets
      | some mishap =>
          cases mishap with
          | emptyCell other span =>
              obtain rfl := Option.some.inj meets
              obtain ⟨address, addressed, fails⟩ :=
                assignmentFault?_of_emptyCell ready bound plain found
              rw [fails]
              exact ⟨address, span, addressed, rfl⟩
          | _ => cases meets
  | unary operator span =>
      cases (Machine.emptyCell?_ofOperation world span stack _).symm.trans meets
  | rightOperand operator left span =>
      cases (Machine.emptyCell?_ofOperation world span stack _).symm.trans meets
  | callee arguments span =>
      cases (Machine.emptyCell?_nextArgument world value [] arguments span stack).symm.trans meets
  | argument callee before others span =>
      cases (Machine.emptyCell?_nextArgument world callee (value :: before) others span
        stack).symm.trans meets
  | property word =>
      cases value with
      | «instance» object =>
          cases (Machine.emptyCell?_property world object word stack).symm.trans meets
      | _ => cases meets
  | fieldObject word right => cases value <;> cases meets
  | logical operator right =>
      simp only [Machine.giveValue] at meets
      split at meets <;> cases meets
  | print span =>
      simp only [Machine.giveValue, World.printMishap?] at meets
      cases fails : world.sink.writeFailure with
      | some reason =>
          rw [fails] at meets
          cases meets
      | none =>
          rw [fails] at meets
          cases meets
  | branch thenBranch elseBranch =>
      simp only [Machine.giveValue] at meets
      split at meets
      · cases meets
      · split at meets <;> cases meets
  | condition loop =>
      simp only [Machine.giveValue] at meets
      split at meets <;> cases meets
  | _ => cases meets

theorem emptyCell?_giveFlow {flow : Flow} {outcome : Awaited} {frame : Frame .flow outcome}
    {stack : Stack outcome} (ready : world.Ready outlet)
    (fits : world.Fits world.setting (.push frame stack)) :
    (Machine.giveFlow world flow frame stack).emptyCell? = none := by
  cases frame with
  | round loop =>
      cases flow with
      | «break» => rfl
      | «return» value => rfl
      | _ =>
          simp only [Machine.giveFlow]
          split <;> rfl
  | sequence others =>
      cases flow with
      | normal => exact Machine.emptyCell?_statements world stack others
      | _ => rfl
  | leave previous => rfl
  | body function span =>
      simp only [Machine.giveFlow, Machine.endBody]
      split
      · next initializer =>
          obtain ⟨value, found, _⟩ := agree_receiver ready fits.1 initializer span
          rw [found]
          rfl
      · split <;> rfl

/-- A step meets an empty cell only at a variable, and the fault gives the address of the
variable. -/
theorem Mirrors.emptyCell_next {machine : Machine} {shadow : Lox.Machine}
    (mirrors : Mirrors outlet machine shadow) (calm : machine.emptyCell? = none) {name : String}
    (meets : machine.next.emptyCell? = some name) : Met name machine.next shadow.next := by
  cases mirrors with
  | evaluate ready bound fits => exact met_beginExpr ready bound meets
  | execute ready noneWaits bound fits => exact met_beginStmt ready noneWaits bound fits meets
  | @answer world value stack ready known fits =>
      cases stack with
      | empty => cases meets
      | push frame rest => exact met_giveValue ready fits meets
  | @finish world flow stack ready known fits =>
      cases stack with
      | empty => cases meets
      | push frame rest => cases (emptyCell?_giveFlow ready fits).symm.trans meets
  | @raise world mishap fault _ stack sound shows =>
      -- A machine that fails already goes on with the same mishap.
      have same : (Machine.next (.raise world mishap stack)).emptyCell? =
          (Machine.raise world mishap stack).emptyCell? := by
        cases mishap <;> cases stack <;> rfl
      cases (same.trans calm).symm.trans meets

end Lox.Lexical
