import Lox.Proofs.Running.CallLimit

/-!
Contract: one step under another limit on calls.

The limit is looked at in one place only, where a call starts. So a step under a higher
limit is the same step, unless it starts a call for which the lower limit has no room: then
the lower run has met with a stack overflow, and has printed nothing in that step.

Main statement: `Machine.widens_next`.

Owns: worlds and machines under another limit, and their steps. Does not own: what becomes
of runs that have parted.
-/

set_option autoImplicit false

namespace Lox

namespace World

/-- The world under this limit on calls. -/
def limited (limit : Nat) (world : World) : World := { world with callLimit := limit }

variable (limit : Nat) (world : World)

theorem limited_define (name : String) (value : Value) :
    (world.limited limit).define name value = (world.define name value).limited limit := by
  have sameScope : (world.limited limit).scope = world.scope := rfl
  simp only [define, sameScope]
  split <;> rfl

theorem limited_assign (reference : Reference) (value : Value) :
    (world.limited limit).assign reference value = (world.assign reference value).limited limit := by
  have sameScope : (world.limited limit).scope = world.scope := rfl
  simp only [assign, assignLocal, sameScope]
  split
  · split <;> rfl
  · rfl

theorem limited_makeMethods (closure : Option EnvironmentRef) (methods : List FunctionDeclaration) :
    makeMethods closure methods (world.limited limit) =
      ((makeMethods closure methods world).1, (makeMethods closure methods world).2.limited limit) := by
  induction methods generalizing world with
  | nil => rfl
  | cons declaration rest inductionHypothesis =>
      have others := inductionHypothesis
        (world.makeFunction declaration closure declaration.isInitializer).2
      simp only [makeMethods]
      exact congrArg (fun made => ((declaration.name.text,
        (world.makeFunction declaration closure declaration.isInitializer).1) :: made.1, made.2)) others

theorem limited_makeClass (name : String) (superclass : Option Class)
    (closure : Option EnvironmentRef) (methods : List FunctionDeclaration) :
    (world.limited limit).makeClass name superclass closure methods =
      ((world.makeClass name superclass closure methods).1,
        (world.makeClass name superclass closure methods).2.limited limit) := by
  simp only [makeClass, limited_makeMethods]
  rfl

end World

namespace Machine

/-- The machine under this limit on calls. -/
def limited (limit : Nat) : Machine → Machine
  | .evaluate world expr stack => .evaluate (world.limited limit) expr stack
  | .execute world stmt stack => .execute (world.limited limit) stmt stack
  | .answer world found stack => .answer (world.limited limit) found stack
  | .finish world flow stack => .finish (world.limited limit) flow stack
  | .raise world fault stack => .raise (world.limited limit) fault stack

@[simp] theorem world_limited (limit : Nat) (machine : Machine) :
    (machine.limited limit).world = machine.world.limited limit := by
  cases machine <;> rfl

/-- From the world a step leads to the first machine, and under the limit to the second:
to the same, unless the first has met with a stack overflow. -/
def Widens (limit : Nat) (world : World) (lower higher : Machine) : Prop :=
  higher = lower.limited limit ∨
    (∃ span, lower.fault? = some ⟨.stackOverflow, span⟩) ∧ lower.world.printed = world.printed

section Steps

variable (limit : Nat) {world : World}

/-! ## Calls and properties -/

theorem limited_statements (world : World) (stack : Stack .flow) (body : List Stmt) :
    statements (world.limited limit) stack body = (statements world stack body).limited limit := by
  cases body <;> rfl

theorem limited_inEnvironment (world : World) (enclosing : Option EnvironmentRef)
    (values : Array Value) (body : List Stmt) (stack : Stack .flow) :
    inEnvironment (world.limited limit) enclosing values body stack =
      (inEnvironment world enclosing values body stack).limited limit :=
  limited_statements limit (world.enter enclosing values) (.push (.leave world.scope) stack) body

theorem limited_callNative (world : World) (native : Native) (arguments : List Value) (span : Span)
    (stack : Stack .value) :
    callNative (world.limited limit) native arguments span stack =
      (callNative world native arguments span stack).limited limit := by
  have sameNatives : (world.limited limit).natives = world.natives := rfl
  have sameMoment : (world.limited limit).moment = world.moment := rfl
  simp only [callNative, sameNatives, sameMoment]
  split
  · rfl
  · next operation _ => cases operation.answer world.moment arguments <;> rfl

theorem limited_construct (world : World) (origin : Class) (arguments : List Value) (span : Span)
    (stack : Stack .value) :
    construct (world.limited limit) origin arguments span stack =
      (construct world origin arguments span stack).limited limit := by
  simp only [construct]
  split
  · rfl
  · next initializer _ =>
      let object := (world.makeInstance origin).1
      let bound := (world.makeInstance origin).2.bindMethod initializer object
      exact limited_inEnvironment limit bound.2 bound.1.closure arguments.toArray _
        (.push (.body bound.1 span) (.push (.construct object) stack))

theorem limited_start (world : World) (callable : Callable) (arguments : List Value) (span : Span)
    (stack : Stack .value) :
    start (world.limited limit) callable arguments span stack =
      (start world callable arguments span stack).limited limit := by
  cases callable with
  | function function => exact limited_inEnvironment limit world function.closure _ _ _
  | native native => exact limited_callNative limit world native arguments span stack
  | «class» origin => exact limited_construct limit world origin arguments span stack

/-- Here alone the limit is looked at. -/
theorem widens_invoke (le : world.callLimit ≤ limit) (callable : Callable)
    (arguments : List Value) (span : Span) (stack : Stack .value) :
    Widens limit world (invoke world callable arguments span stack)
      (invoke (world.limited limit) callable arguments span stack) := by
  by_cases full : world.callLimit ≤ world.callDepth
  · simp only [invoke, full, if_true]
    exact .inr ⟨⟨span, rfl⟩, rfl⟩
  · have room : ¬ (world.limited limit).callLimit ≤ (world.limited limit).callDepth :=
      fun fullHigher => full (Nat.le_trans le fullHigher)
    simp only [invoke, full, room, if_false]
    exact .inl (limited_start limit { world with callDepth := world.callDepth + 1 } callable
      arguments span (.push .call stack))

theorem widens_callValue (le : world.callLimit ≤ limit) (callee : Value) (arguments : List Value)
    (span : Span) (stack : Stack .value) :
    Widens limit world (callValue world callee arguments span stack)
      (callValue (world.limited limit) callee arguments span stack) := by
  simp only [callValue]
  split
  · exact .inl rfl
  · split
    · exact widens_invoke limit le _ arguments span stack
    · exact .inl rfl

theorem widens_methodOf (le : world.callLimit ≤ limit) (origin : Class) (receiver : Instance)
    (name : Name) (stack : Stack .value) :
    Widens limit world (methodOf world origin receiver name stack)
      (methodOf (world.limited limit) origin receiver name stack) := by
  simp only [methodOf]
  split
  · next method _ =>
      have bound : (world.limited limit).bindMethod method receiver =
          ((world.bindMethod method receiver).1,
            (world.bindMethod method receiver).2.limited limit) := rfl
      have sameLimit : (world.bindMethod method receiver).2.callLimit ≤ limit := le
      simp only [boundMethod, bound]
      split
      · exact widens_invoke limit sameLimit (.function (world.bindMethod method receiver).1) []
          name.span stack
      · exact .inl rfl
  · exact .inl rfl

theorem widens_property (le : world.callLimit ≤ limit) (object : Instance) (name : Name)
    (stack : Stack .value) :
    Widens limit world (property world object name stack)
      (property (world.limited limit) object name stack) := by
  have sameField : (world.limited limit).field? object name.text = world.field? object name.text :=
    rfl
  simp only [property, sameField]
  split
  · exact .inl rfl
  · exact widens_methodOf limit le object.origin object name stack

theorem widens_superMethod (le : world.callLimit ≤ limit) (address : Option Address) (name : Name)
    (span : Span) (stack : Stack .value) :
    Widens limit world (superMethod world address name span stack)
      (superMethod (world.limited limit) address name span stack) := by
  have sameLocal (address : Address) :
      (world.limited limit).readLocal address span = world.readLocal address span := rfl
  match address with
  | none => exact .inl rfl
  | some ⟨0, _⟩ => exact .inl rfl
  | some ⟨depth + 1, slot⟩ =>
      simp only [superMethod, sameLocal]
      split
      · exact .inl rfl
      · split
        · exact .inl rfl
        · exact widens_methodOf limit le _ _ name stack
        · exact .inl rfl
      · exact .inl rfl

/-! ## Expressions and statements -/

theorem widens_beginExpr (le : world.callLimit ≤ limit) (stack : Stack .value) (expr : Expr) :
    Widens limit world (beginExpr world stack expr) (beginExpr (world.limited limit) stack expr) := by
  cases expr with
  | «variable» reference =>
      have sameValue : (world.limited limit).readVariable reference = world.readVariable reference :=
        rfl
      simp only [beginExpr, sameValue]
      cases world.readVariable reference <;> exact .inl rfl
  | this address span =>
      cases address with
      | none => exact .inl rfl
      | some address =>
          have sameLocal : (world.limited limit).readLocal address span =
            world.readLocal address span := rfl
          simp only [beginExpr, sameLocal]
          cases world.readLocal address span <;> exact .inl rfl
  | super address method span => exact widens_superMethod limit le address method span stack
  | _ => exact .inl rfl

theorem limited_declareClass (world : World) (name : Name) (superclass : Option Class)
    (closure : Option EnvironmentRef) (methods : List FunctionDeclaration) (stack : Stack .flow) :
    declareClass (world.limited limit) name superclass closure methods stack =
      (declareClass world name superclass closure methods stack).limited limit := by
  simp only [declareClass, World.limited_makeClass, World.limited_define]
  rfl

theorem limited_executeClass (world : World) (name : Name) (superclass : Option Reference)
    (methods : List FunctionDeclaration) (stack : Stack .flow) :
    executeClass (world.limited limit) name superclass methods stack =
      (executeClass world name superclass methods stack).limited limit := by
  cases superclass with
  | none => exact limited_declareClass limit world name none world.scope methods stack
  | some reference =>
      have sameValue : (world.limited limit).readVariable reference = world.readVariable reference :=
        rfl
      simp only [executeClass, sameValue]
      split
      · rfl
      · next inherited _ =>
          let made := world.allocate world.scope #[.class inherited]
          exact limited_declareClass limit made.2 name (some inherited) (some made.1) methods stack
      · rfl

theorem limited_beginStmt (world : World) (stack : Stack .flow) (stmt : Stmt) :
    beginStmt (world.limited limit) stack stmt = (beginStmt world stack stmt).limited limit := by
  cases stmt with
  | var name initializer span =>
      cases initializer with
      | none =>
          simp only [beginStmt, World.limited_define]
          rfl
      | some value => rfl
  | block body span => exact limited_inEnvironment limit world world.scope #[] body stack
  | function declaration span =>
      have defined := World.limited_define limit
        (world.makeFunction declaration world.scope false).2 declaration.name.text
        (.function (world.makeFunction declaration world.scope false).1)
      exact congrArg (Machine.finish · .normal stack) defined
  | «return» value span => cases value <;> rfl
  | «class» name superclass methods span =>
      exact limited_executeClass limit world name superclass methods stack
  | _ => rfl

/-! ## Frames -/

theorem widens_nextArgument (le : world.callLimit ≤ limit) (callee : Value) (before : List Value)
    (others : List Expr) (span : Span) (stack : Stack .value) :
    Widens limit world (nextArgument world callee before others span stack)
      (nextArgument (world.limited limit) callee before others span stack) := by
  cases others with
  | nil => exact widens_callValue limit le callee before.reverse span stack
  | cons first rest => exact .inl rfl

theorem widens_giveValue (le : world.callLimit ≤ limit) (found : Value) {outcome : Awaited}
    (frame : Frame .value outcome) (stack : Stack outcome) :
    Widens limit world (giveValue world found frame stack)
      (giveValue (world.limited limit) found frame stack) := by
  cases frame with
  | assign target =>
      have sameFault : (world.limited limit).assignmentFault? target =
        world.assignmentFault? target := rfl
      simp only [giveValue, sameFault, World.limited_assign]
      split <;> exact .inl rfl
  | unary operator span =>
      simp only [giveValue]
      cases operator.apply found <;> exact .inl rfl
  | rightOperand operator left span =>
      simp only [giveValue]
      cases operator.apply left found <;> exact .inl rfl
  | logical operator right =>
      simp only [giveValue]
      split <;> exact .inl rfl
  | callee arguments span => exact widens_nextArgument limit le found [] arguments span stack
  | argument callee before others span =>
      exact widens_nextArgument limit le callee (found :: before) others span stack
  | property name =>
      cases found with
      | «instance» object => exact widens_property limit le object name stack
      | _ => exact .inl rfl
  | fieldObject name value => cases found <;> exact .inl rfl
  | print span =>
      have sameFault : (world.limited limit).printFault? span = world.printFault? span := rfl
      simp only [giveValue, sameFault]
      split <;> exact .inl rfl
  | declare name =>
      simp only [giveValue, World.limited_define]
      exact .inl rfl
  | branch thenBranch elseBranch =>
      simp only [giveValue]
      split
      · exact .inl rfl
      · cases elseBranch <;> exact .inl rfl
  | condition loop =>
      simp only [giveValue]
      split <;> exact .inl rfl
  | _ => exact .inl rfl

theorem limited_endBody (world : World) (function : Function) (span : Span) (flow : Flow)
    (stack : Stack .value) :
    endBody (world.limited limit) function span flow stack =
      (endBody world function span flow stack).limited limit := by
  have sameForest : (world.limited limit).forest = world.forest := rfl
  simp only [endBody, sameForest]
  split
  · split <;> rfl
  · cases flow <;> rfl

theorem limited_giveFlow (world : World) (flow : Flow) {outcome : Awaited}
    (frame : Frame .flow outcome) (stack : Stack outcome) :
    giveFlow (world.limited limit) flow frame stack =
      (giveFlow world flow frame stack).limited limit := by
  cases frame with
  | round loop =>
      obtain ⟨condition, body, increment⟩ := loop
      cases flow <;> cases increment <;> rfl
  | sequence others =>
      cases flow with
      | normal => exact limited_statements limit world stack others
      | _ => rfl
  | leave previous => rfl
  | body function span => exact limited_endBody limit world function span flow stack

end Steps

/-- A step under a higher limit is the same step, unless the lower limit stops it. -/
theorem widens_next {limit : Nat} {machine : Machine} (le : machine.world.callLimit ≤ limit) :
    Widens limit machine.world machine.next (machine.limited limit).next := by
  cases machine with
  | evaluate world expr stack => exact widens_beginExpr limit le stack expr
  | execute world stmt stack => exact .inl (limited_beginStmt limit world stack stmt)
  | answer world found stack =>
      cases stack with
      | empty => exact .inl rfl
      | push frame rest => exact widens_giveValue limit le found frame rest
  | finish world flow stack =>
      cases stack with
      | empty => exact .inl rfl
      | push frame rest => exact .inl (limited_giveFlow limit world flow frame rest)
  | raise world fault stack =>
      cases stack with
      | empty => exact .inl rfl
      | push frame rest => cases frame <;> exact .inl rfl

end Machine

end Lox
