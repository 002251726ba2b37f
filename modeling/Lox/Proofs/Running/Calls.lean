import Lox.Proofs.Running.Base

/-!
Contract: calls as a whole.

A call that the next step of a run starts may be looked at alone. If alone it comes to an
end with a value, then in the run it does so too, and what was around it goes on with
that value. The body of a function that runs in a call that ends has an end itself. The
call of a class ends with a new instance, however the body of its initializer does.

Owns: calls, and how they end. Does not own: what `this` means in a body.
-/

set_option autoImplicit false

namespace Lox

/-- The run comes to an end with the value. -/
def Machine.Ends (machine : Machine) (value : Value) (ended : World) : Prop :=
  ∃ steps, machine.run steps = .answer ended value .empty

/-- A value that is called with arguments, and what goes on with the result. -/
structure Call where
  world : World
  callee : Value
  arguments : List Value
  span : Span
  stack : Stack .value

namespace Call

/-- The call alone, with nothing around it. -/
def alone (call : Call) : Machine :=
  .callValue call.world call.callee call.arguments call.span .empty

/-- The call alone comes to an end with the value. -/
def Yields (call : Call) (value : Value) (ended : World) : Prop :=
  call.alone.Ends value ended

end Call

namespace Machine

/-- The call that the next step starts. -/
def call? : Machine → Option Call
  | .answer world callee (.push (.callee [] span) stack) => some ⟨world, callee, [], span, stack⟩
  | .answer world last (.push (.argument callee before [] span) stack) =>
      some ⟨world, callee, (last :: before).reverse, span, stack⟩
  | _ => none

variable {machine : Machine} {call : Call}

theorem next_of_call? (calls : machine.call? = some call) :
    machine.isDone = false ∧
      machine.next = callValue call.world call.callee call.arguments call.span call.stack := by
  unfold call? at calls
  split at calls
  · obtain rfl := Option.some.inj calls
    exact ⟨rfl, rfl⟩
  · obtain rfl := Option.some.inj calls
    exact ⟨rfl, rfl⟩
  · cases calls

/-- What stands around a call, as a base to set it on. -/
def around (stack : Stack .value) : (awaited : Awaited) → Stack awaited
  | .value => stack
  | .flow => .empty

theorem next_eq_onto_around (calls : machine.call? = some call) :
    machine.next = call.alone.onto (around call.stack) := by
  have onto : callValue call.world call.callee call.arguments call.span
      (Stack.onto (around call.stack) .empty) = call.alone.onto (around call.stack) :=
    onto_callValue call.world call.callee call.arguments call.span .empty
  rw [(next_of_call? calls).2]
  exact onto

/-! ## How parts of a run end -/

variable {value : Value} {ended : World}

/-- How a run ends is settled at each of its steps. -/
theorem ends_next_iff : machine.next.Ends value ended ↔ machine.Ends value ended := by
  by_cases done : machine.isDone = true
  · rw [next_of_isDone done]
  · constructor
    · intro ends
      obtain ⟨steps, reaches⟩ := ends
      refine ⟨steps + 1, ?_⟩
      simpa only [run, done, Bool.false_eq_true, ↓reduceIte] using reaches
    · intro ends
      obtain ⟨steps, reaches⟩ := ends
      cases steps with
      | zero =>
          obtain rfl : machine = .answer ended value .empty := reaches
          exact (done rfl).elim
      | succ steps =>
          refine ⟨steps, ?_⟩
          simpa only [run, done, Bool.false_eq_true, ↓reduceIte] using reaches

theorem ends_run_iff (steps : Nat) :
    (machine.run steps).Ends value ended ↔ machine.Ends value ended := by
  induction steps generalizing machine with
  | zero => rfl
  | succ steps inductionHypothesis =>
      simp only [run]
      split
      · rfl
      · rw [inductionHypothesis, ends_next_iff]

/-- A run that is done stays so. -/
theorem run_add_of_isDone {steps : Nat} (done : (machine.run steps).isDone = true) (more : Nat) :
    machine.run (steps + more) = machine.run steps := by
  rw [run_add, run_of_isDone done]

theorem isDone_run_mono {earlier later : Nat} (less : earlier ≤ later)
    (done : (machine.run earlier).isDone = true) : (machine.run later).isDone = true := by
  obtain ⟨more, rfl⟩ := Nat.exists_eq_add_of_le less
  rw [run_add_of_isDone done]
  exact done

/-- A fault on its way out stays one. -/
theorem not_ends_raise {awaited : Awaited} (world : World) (fault : Fault)
    (stack : Stack awaited) : ¬ (Machine.raise world fault stack).Ends value ended := by
  induction stack generalizing world with
  | empty =>
      intro ends
      obtain ⟨steps, reaches⟩ := ends
      rw [run_of_isDone rfl] at reaches
      cases reaches
  | push frame below inductionHypothesis =>
      rw [← ends_next_iff]
      exact inductionHypothesis (unwind world frame)

theorem ends_answer_iff {world : World} {found : Value} :
    (Machine.answer world found .empty).Ends value ended ↔ world = ended ∧ found = value := by
  constructor
  · intro ends
    obtain ⟨steps, reaches⟩ := ends
    rw [run_of_isDone rfl] at reaches
    cases reaches
    exact ⟨rfl, rfl⟩
  · rintro ⟨rfl, rfl⟩
    exact ⟨0, rfl⟩

/-- What was begun in a frame that awaits a flow, and what is around the frame comes to an
end with a value: then the part has ended with a flow. -/
theorem finishes_of_ends {inner : Machine} {base : (awaited : Awaited) → Stack awaited}
    (flows : ∀ first second : (awaited : Awaited) → Stack awaited, first .flow = second .flow →
      inner.onto first = inner.onto second)
    (ends : (inner.onto base).Ends value ended) :
    ∃ last world flow, inner.run last = .finish world flow .empty ∧
      ∀ earlier < last, (inner.run earlier).isDone = false := by
  obtain ⟨steps, reaches⟩ := ends
  have done : (inner.run steps).isDone = true := by
    cases going : (inner.run steps).isDone with
    | true => rfl
    | false =>
        have before : ∀ earlier < steps, (inner.run earlier).isDone = false := by
          intro earlier less
          refine Bool.eq_false_iff.mpr fun early => ?_
          rw [isDone_run_mono (Nat.le_of_lt less) early] at going
          cases going
        have busy := isDone_onto base going
        rw [← run_onto base steps before, reaches] at busy
        cases busy
  obtain ⟨last, same, going⟩ := exists_first_done inner done
  have onto (other : (awaited : Awaited) → Stack awaited) := run_onto other last going
  rw [← same] at done
  cases reached : inner.run last with
  | evaluate => simp [reached, isDone] at done
  | execute => simp [reached, isDone] at done
  | finish world flow stack =>
      cases stack with
      | empty => exact ⟨last, world, flow, reached, going⟩
      | push frame rest => simp [reached, isDone] at done
  | answer world found stack =>
      cases stack with
      | push frame rest => simp [reached, isDone] at done
      | empty =>
          -- The run would not notice what awaits a value, and yet would end there.
          let idle : (awaited : Awaited) → Stack awaited := fun _ => .empty
          let busy : (awaited : Awaited) → Stack awaited
            | .value => .push .call .empty
            | .flow => .empty
          have alike := onto idle
          rw [flows idle busy rfl, onto busy, reached] at alike
          cases alike
  | raise world fault stack =>
      cases stack with
      | push frame rest => simp [reached, isDone] at done
      | empty =>
          have raised := onto base
          rw [reached] at raised
          have ends := (ends_run_iff last).mpr ⟨steps, reaches⟩
          rw [raised] at ends
          exact (not_ends_raise world fault _ ends).elim

/-- A call ends in the run as it does alone. -/
theorem run_of_yields (calls : machine.call? = some call) (yields : call.Yields value ended) :
    ∃ steps, machine.run steps = .answer ended value call.stack := by
  obtain ⟨steps, ends⟩ := yields
  have done : (call.alone.run steps).isDone = true := by
    rw [ends]
    rfl
  obtain ⟨last, same, going⟩ := exists_first_done call.alone done
  have onto := run_onto (around call.stack) last going
  rw [same, ends] at onto
  refine ⟨last + 1, ?_⟩
  simp only [run, (next_of_call? calls).1, Bool.false_eq_true, ↓reduceIte,
    next_eq_onto_around calls]
  exact onto

/-! ## Bodies -/

/-- The body of a function, with nothing around it. -/
def bodyAlone (world : World) (function : Function) (arguments : List Value) : Machine :=
  inEnvironment world function.closure arguments.toArray function.declaration.body .empty

theorem onto_bodyAlone (base : (awaited : Awaited) → Stack awaited) (world : World)
    (function : Function) (arguments : List Value) :
    (bodyAlone world function arguments).onto base =
      inEnvironment world function.closure arguments.toArray function.declaration.body
        (base .flow) :=
  (onto_inEnvironment world function.closure arguments.toArray function.declaration.body
    .empty).symm

/-- To end a body takes nothing from what is around it. -/
theorem endBody_of_ends {world : World} {function : Function} {span : Span} {flow : Flow}
    {stack : Stack .value} (ends : (endBody world function span flow stack).Ends value ended) :
    ∃ result, ∀ (place : Span) (rest : Stack .value),
      endBody world function place flow rest = .answer world result rest := by
  unfold endBody at ends ⊢
  split at ends
  · next initializer =>
      split at ends
      · next receiver found => exact ⟨receiver, fun _ _ => by simp [initializer]⟩
      · exact (not_ends_raise _ _ _ ends).elim
  · next plain =>
      cases flow with
      | «return» result => exact ⟨result, fun _ _ => by simp [plain]⟩
      | _ => exact ⟨.nil, fun _ _ => by simp [plain]⟩

/-- If what is around the body of a function ends, then the body does, and gives a result
to what is around it. Around anything else it does the same. -/
theorem body_of_ends {world : World} {function : Function} {arguments : List Value} {span : Span}
    {stack : Stack .value}
    (ends : (enterFunction world function arguments span stack).Ends value ended) :
    ∃ last reached flow result,
      (∀ (place : Span) (rest : Stack .value),
        (enterFunction world function arguments place rest).run last =
          .finish reached flow (.push (.body function place) rest)) ∧
      (∀ (place : Span) (rest : Stack .value),
        endBody reached function place flow rest = .answer reached result rest) ∧
      (Machine.answer reached result stack).Ends value ended := by
  let base (place : Span) (rest : Stack .value) := underneath (.push (.body function place) rest)
  have onto (place : Span) (rest : Stack .value) :
      enterFunction world function arguments place rest =
        (bodyAlone world function arguments).onto (base place rest) :=
    (onto_bodyAlone (base place rest) world function arguments).symm
  have flows (first second : (awaited : Awaited) → Stack awaited)
      (same : first .flow = second .flow) :
      (bodyAlone world function arguments).onto first =
        (bodyAlone world function arguments).onto second := by
    rw [onto_bodyAlone, onto_bodyAlone, same]
  obtain ⟨last, reached, flow, finishes, going⟩ := finishes_of_ends flows (onto span stack ▸ ends)
  have runs (place : Span) (rest : Stack .value) :
      (enterFunction world function arguments place rest).run last =
        .finish reached flow (.push (.body function place) rest) := by
    rw [onto, run_onto (base place rest) last going, finishes]
    rfl
  have afterwards := (ends_run_iff last).mpr ends
  rw [runs, ← ends_next_iff] at afterwards
  obtain ⟨result, gives⟩ := endBody_of_ends afterwards
  have answered : (Machine.answer reached result stack).Ends value ended := by
    rw [← gives span stack]
    exact afterwards
  exact ⟨last, reached, flow, result, runs, gives, answered⟩

/-! ## Classes and initializers -/

/-- A call that comes to an end was one of a callable with the right number of arguments,
and there was room for it. -/
theorem start_of_yields (yields : call.Yields value ended) :
    ∃ callable, call.callee.callable? = some callable ∧
      (∀ stack : Stack .value,
        callValue call.world call.callee call.arguments call.span stack =
          start { call.world with callDepth := call.world.callDepth + 1 } callable call.arguments
            call.span (.push .call stack)) ∧
      (start { call.world with callDepth := call.world.callDepth + 1 } callable call.arguments
        call.span (.push .call .empty)).Ends value ended := by
  have ends : (callValue call.world call.callee call.arguments call.span .empty).Ends value ended :=
    yields
  simp only [callValue, invoke] at ends ⊢
  split at ends
  · exact (not_ends_raise _ _ _ ends).elim
  · next callable found =>
      split at ends
      · next arity =>
          split at ends
          · exact (not_ends_raise _ _ _ ends).elim
          · next room => exact ⟨callable, found, fun _ => by simp [arity, room], ends⟩
      · exact (not_ends_raise _ _ _ ends).elim

/-- The call of a class that comes to an end yields a new instance of the class. -/
theorem instance_of_yields {origin : Class} (calls : call.callee = .class origin)
    (yields : call.Yields value ended) : value = .instance (call.world.makeInstance origin).1 := by
  obtain ⟨callable, called, _, ends⟩ := start_of_yields yields
  rw [calls] at called
  obtain rfl := Option.some.inj called
  simp only [start, construct] at ends
  split at ends
  · rw [← ends_next_iff] at ends
    exact (ends_answer_iff.mp ends).2.symm
  · obtain ⟨_, _, _, result, _, _, answered⟩ := body_of_ends ends
    rw [← ends_next_iff, ← ends_next_iff] at answered
    exact (ends_answer_iff.mp answered).2.symm

/-- The call of a function that comes to an end yields what the end of its body gives. In
the run the body ends alike. -/
theorem body_of_yields {function : Function} (calls : machine.call? = some call)
    (callee : call.callee = .function function) (yields : call.Yields value ended) :
    ∃ steps reached flow,
      machine.run steps =
          .finish reached flow (.push (.body function call.span) (.push .call call.stack)) ∧
        ∀ (place : Span) (rest : Stack .value),
          endBody reached function place flow rest = .answer reached value rest := by
  obtain ⟨callable, called, starts, ends⟩ := start_of_yields yields
  rw [callee] at called
  obtain rfl := Option.some.inj called
  obtain ⟨last, reached, flow, result, runs, gives, answered⟩ := body_of_ends ends
  rw [← ends_next_iff] at answered
  obtain rfl : result = value := (ends_answer_iff.mp answered).2
  obtain ⟨going, next⟩ := next_of_call? calls
  refine ⟨last + 1, reached, flow, ?_, gives⟩
  simp only [run, going, Bool.false_eq_true, ↓reduceIte, next, starts]
  exact runs call.span (.push .call call.stack)

end Machine

end Lox
