import Lox.Machine.Step

/-!
Contract: a run does not look below the frames that it has made.

A machine may be set on a base: more frames at the bottom of its stack. One step above
the base is the step without it. So whatever is evaluated or executed in the middle of
a run goes its way as if nothing stood behind it, until it is done.

Main statement: `Machine.run_onto`.

Owns: machines over a base. Does not own: what becomes of the base.
-/

set_option autoImplicit false

namespace Lox

/-- The stack with more frames at its bottom. -/
def Stack.onto (base : (awaited : Awaited) → Stack awaited) :
    {awaited : Awaited} → Stack awaited → Stack awaited
  | awaited, .empty => base awaited
  | _, .push frame rest => .push frame (rest.onto base)

namespace Machine

/-- The machine with more frames at the bottom of its stack. -/
def onto (base : (awaited : Awaited) → Stack awaited) : Machine → Machine
  | .evaluate world expr stack => .evaluate world expr (stack.onto base)
  | .execute world stmt stack => .execute world stmt (stack.onto base)
  | .answer world found stack => .answer world found (stack.onto base)
  | .finish world flow stack => .finish world flow (stack.onto base)
  | .raise world fault stack => .raise world fault (stack.onto base)

/-- What stands under a statement, as a base to set it on. -/
def underneath (stack : Stack .flow) : (awaited : Awaited) → Stack awaited
  | .value => .empty
  | .flow => stack

section Steps

variable {base : (awaited : Awaited) → Stack awaited}

theorem onto_ofResult (world : World) (stack : Stack .value) (result : Except Fault Value) :
    ofResult world (stack.onto base) result = (ofResult world stack result).onto base := by
  cases result <;> rfl

theorem onto_ofOperation (world : World) (span : Span) (stack : Stack .value)
    (result : Except Fault.Violation Value) :
    ofOperation world span (stack.onto base) result =
      (ofOperation world span stack result).onto base := by
  cases result <;> rfl

theorem onto_statements (world : World) (stack : Stack .flow) (body : List Stmt) :
    statements world (stack.onto base) body = (statements world stack body).onto base := by
  cases body <;> rfl

theorem onto_inEnvironment (world : World) (enclosing : Option EnvironmentRef)
    (values : Array Value) (body : List Stmt) (stack : Stack .flow) :
    inEnvironment world enclosing values body (stack.onto base) =
      (inEnvironment world enclosing values body stack).onto base :=
  onto_statements _ (.push (.leave world.scope) stack) body

theorem onto_enterFunction (world : World) (function : Function) (arguments : List Value)
    (span : Span) (stack : Stack .value) :
    enterFunction world function arguments span (stack.onto base) =
      (enterFunction world function arguments span stack).onto base :=
  onto_inEnvironment world function.closure _ _ (.push (.body function span) stack)

theorem onto_construct (world : World) (origin : Class) (arguments : List Value) (span : Span)
    (stack : Stack .value) :
    construct world origin arguments span (stack.onto base) =
      (construct world origin arguments span stack).onto base := by
  simp only [construct]
  split
  · rfl
  · exact onto_enterFunction _ _ arguments span
      (.push (.construct (world.makeInstance origin).1) stack)

theorem onto_callNative (world : World) (native : Native) (arguments : List Value) (span : Span)
    (stack : Stack .value) :
    callNative world native arguments span (stack.onto base) =
      (callNative world native arguments span stack).onto base := by
  simp only [callNative]
  split
  · rfl
  · next operation _ => cases operation.answer world.moment arguments <;> rfl

theorem onto_invoke (world : World) (callable : Callable) (arguments : List Value) (span : Span)
    (stack : Stack .value) :
    invoke world callable arguments span (stack.onto base) =
      (invoke world callable arguments span stack).onto base := by
  simp only [invoke]
  split
  · rfl
  · cases callable with
    | function function => exact onto_enterFunction _ function arguments span (.push .call stack)
    | native native => exact onto_callNative _ native arguments span (.push .call stack)
    | «class» origin => exact onto_construct _ origin arguments span (.push .call stack)

theorem onto_callValue (world : World) (callee : Value) (arguments : List Value) (span : Span)
    (stack : Stack .value) :
    callValue world callee arguments span (stack.onto base) =
      (callValue world callee arguments span stack).onto base := by
  simp only [callValue]
  split
  · rfl
  · split
    · exact onto_invoke world _ arguments span stack
    · rfl

theorem onto_methodOf (world : World) (origin : Class) (receiver : Instance) (name : Name)
    (stack : Stack .value) :
    methodOf world origin receiver name (stack.onto base) =
      (methodOf world origin receiver name stack).onto base := by
  simp only [methodOf]
  split
  · simp only [boundMethod]
    split
    · exact onto_invoke _ _ [] name.span stack
    · rfl
  · rfl

theorem onto_property (world : World) (object : Instance) (name : Name) (stack : Stack .value) :
    property world object name (stack.onto base) =
      (property world object name stack).onto base := by
  simp only [property]
  split
  · rfl
  · exact onto_methodOf world object.origin object name stack

theorem onto_superMethod (world : World) (address : Option Address) (name : Name) (span : Span)
    (stack : Stack .value) :
    superMethod world address name span (stack.onto base) =
      (superMethod world address name span stack).onto base := by
  unfold superMethod
  split
  · rfl
  · rfl
  · split
    · rfl
    · split
      · rfl
      · exact onto_methodOf world _ _ name stack
      · rfl
    · rfl

theorem onto_beginExpr (world : World) (stack : Stack .value) (expr : Expr) :
    beginExpr world (stack.onto base) expr = (beginExpr world stack expr).onto base := by
  cases expr with
  | «variable» reference => exact onto_ofResult world stack _
  | super address method span => exact onto_superMethod world address method span stack
  | this address span =>
      cases address with
      | none => rfl
      | some address => exact onto_ofResult world stack _
  | _ => rfl

theorem onto_executeClass (world : World) (name : Name) (superclass : Option Reference)
    (methods : List FunctionDeclaration) (stack : Stack .flow) :
    executeClass world name superclass methods (stack.onto base) =
      (executeClass world name superclass methods stack).onto base := by
  unfold executeClass
  split
  · rfl
  · split <;> rfl

theorem onto_beginStmt (world : World) (stack : Stack .flow) (stmt : Stmt) :
    beginStmt world (stack.onto base) stmt = (beginStmt world stack stmt).onto base := by
  cases stmt with
  | var name initializer span => cases initializer <;> rfl
  | block body span => exact onto_inEnvironment world world.scope #[] body stack
  | «return» value span => cases value <;> rfl
  | «class» name superclass methods span =>
      exact onto_executeClass world name superclass methods stack
  | _ => rfl

theorem onto_nextArgument (world : World) (callee : Value) (before : List Value)
    (others : List Expr) (span : Span) (stack : Stack .value) :
    nextArgument world callee before others span (stack.onto base) =
      (nextArgument world callee before others span stack).onto base := by
  cases others with
  | nil => exact onto_callValue world callee before.reverse span stack
  | cons first rest => rfl

theorem onto_giveValue (world : World) (found : Value) {outcome : Awaited}
    (frame : Frame .value outcome) (stack : Stack outcome) :
    giveValue world found frame (stack.onto base) = (giveValue world found frame stack).onto base := by
  cases frame with
  | assign target =>
      simp only [giveValue]
      split <;> rfl
  | unary operator span => exact onto_ofOperation world span stack _
  | rightOperand operator left span => exact onto_ofOperation world span stack _
  | logical operator right =>
      simp only [giveValue]
      split <;> rfl
  | callee arguments span => exact onto_nextArgument world found [] arguments span stack
  | argument callee before others span =>
      exact onto_nextArgument world callee (found :: before) others span stack
  | property name =>
      cases found with
      | «instance» object => exact onto_property world object name stack
      | _ => rfl
  | fieldObject name value => cases found <;> rfl
  | print span =>
      simp only [giveValue]
      split <;> rfl
  | branch thenBranch elseBranch =>
      simp only [giveValue]
      split
      · rfl
      · cases elseBranch <;> rfl
  | condition loop =>
      simp only [giveValue]
      split <;> rfl
  | _ => rfl

theorem onto_endBody (world : World) (function : Function) (span : Span) (flow : Flow)
    (stack : Stack .value) :
    endBody world function span flow (stack.onto base) =
      (endBody world function span flow stack).onto base := by
  simp only [endBody]
  split
  · split <;> rfl
  · cases flow <;> rfl

theorem onto_giveFlow (world : World) (flow : Flow) {outcome : Awaited}
    (frame : Frame .flow outcome) (stack : Stack outcome) :
    giveFlow world flow frame (stack.onto base) = (giveFlow world flow frame stack).onto base := by
  cases frame with
  | round loop =>
      cases flow with
      | «break» => rfl
      | «return» value => rfl
      | normal =>
          simp only [giveFlow]
          split <;> rfl
      | «continue» =>
          simp only [giveFlow]
          split <;> rfl
  | sequence others =>
      cases flow with
      | normal => exact onto_statements world stack others
      | _ => rfl
  | leave previous => rfl
  | body function span => exact onto_endBody world function span flow stack

end Steps

/-- A machine that is not done takes the same step over any base. -/
theorem next_onto (base : (awaited : Awaited) → Stack awaited) {machine : Machine}
    (going : machine.isDone = false) : (machine.onto base).next = machine.next.onto base := by
  cases machine with
  | evaluate world expr stack => exact onto_beginExpr world stack expr
  | execute world stmt stack => exact onto_beginStmt world stack stmt
  | answer world found stack =>
      cases stack with
      | empty => cases going
      | push frame rest => exact onto_giveValue world found frame rest
  | finish world flow stack =>
      cases stack with
      | empty => cases going
      | push frame rest => exact onto_giveFlow world flow frame rest
  | raise world fault stack =>
      cases stack with
      | empty => cases going
      | push frame rest => rfl

theorem isDone_onto (base : (awaited : Awaited) → Stack awaited) {machine : Machine}
    (going : machine.isDone = false) : (machine.onto base).isDone = false := by
  cases machine with
  | evaluate => rfl
  | execute => rfl
  | answer world found stack =>
      cases stack with
      | empty => cases going
      | push frame rest => rfl
  | finish world flow stack =>
      cases stack with
      | empty => cases going
      | push frame rest => rfl
  | raise world fault stack =>
      cases stack with
      | empty => cases going
      | push frame rest => rfl

/-- Up to its last step a run over a base is the run without the base. -/
theorem run_onto (base : (awaited : Awaited) → Stack awaited) (steps : Nat) {machine : Machine}
    (going : ∀ earlier < steps, (machine.run earlier).isDone = false) :
    (machine.onto base).run steps = (machine.run steps).onto base := by
  induction steps generalizing machine with
  | zero => rfl
  | succ steps inductionHypothesis =>
      have begins : machine.isDone = false := going 0 (Nat.succ_pos steps)
      have goesOn : ∀ earlier < steps, (machine.next.run earlier).isDone = false := by
        intro earlier less
        have later := going (earlier + 1) (Nat.succ_lt_succ less)
        simpa only [run, begins, Bool.false_eq_true, ↓reduceIte] using later
      simp only [run, begins, isDone_onto base begins, Bool.false_eq_true, ↓reduceIte,
        next_onto base begins]
      exact inductionHypothesis goesOn

/-- Whatever has ended without a stack has a last step before which it was not done. -/
theorem exists_first_done (machine : Machine) {steps : Nat}
    (done : (machine.run steps).isDone = true) :
    ∃ last, machine.run last = machine.run steps ∧
      ∀ earlier < last, (machine.run earlier).isDone = false := by
  induction steps with
  | zero => exact ⟨0, rfl, fun _ less => absurd less (Nat.not_lt_zero _)⟩
  | succ steps inductionHypothesis =>
      by_cases before : (machine.run steps).isDone = true
      · obtain ⟨last, same, going⟩ := inductionHypothesis before
        refine ⟨last, ?_, going⟩
        rw [same, run_add steps 1 machine]
        exact (run_of_isDone before 1).symm
      · refine ⟨steps + 1, rfl, fun earlier less => ?_⟩
        refine Bool.eq_false_iff.mpr fun early => ?_
        obtain ⟨more, rfl⟩ := Nat.exists_eq_add_of_le (Nat.le_of_lt_succ less)
        rw [run_add, run_of_isDone early] at before
        exact before early

end Machine

end Lox
