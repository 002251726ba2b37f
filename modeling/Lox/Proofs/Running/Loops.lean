import Mathlib.Logic.Relation
import Lox.Proofs.InStep
import Lox.Proofs.Running.Calls
import Lox.Proofs.Running.HigherLimit
import Lox.Proofs.Running.Jumps

/-!
Contract: loops with an increment, round by round.

A round of such a loop tests the condition, executes the body, and evaluates the increment, once
and in the scope of the loop, after a body that has ended normally or with a `continue`. So every
moment of a run of the loop comes after a number of whole rounds, and is in one of three stages of
the next one; or else the run has left the loop: because the condition did not hold, by a `break`
or a return of the body, or with a fault. No increment is evaluated on the way out.

Main statement: `Loop.inRounds`.

Owns: rounds and their stages. Does not own: what is evaluated in them.
-/

set_option autoImplicit false

namespace Lox

/-! ## Parts of a run -/

namespace Machine

/-- The run comes to an end with the fault. -/
def Fails (machine : Machine) (fault : Fault) (ended : World) : Prop :=
  ∃ steps awaited, machine.run steps = .raise ended fault (.empty : Stack awaited)

/-- The run of the part has come so far, and was not done before. -/
def InProgress (part now : Machine) : Prop :=
  ∃ steps, now = part.run steps ∧ ∀ earlier < steps, (part.run earlier).isDone = false

variable {part now : Machine} {world : World}

theorem InProgress.begin (part : Machine) : InProgress part part :=
  ⟨0, rfl, fun _ less => absurd less (Nat.not_lt_zero _)⟩

theorem InProgress.next (runs : InProgress part now) (going : now.isDone = false) :
    InProgress part now.next := by
  obtain ⟨steps, rfl, goingBefore⟩ := runs
  refine ⟨steps + 1, (run_succ steps part).symm, fun earlier less => ?_⟩
  obtain before | rfl := Nat.lt_or_eq_of_le (Nat.le_of_lt_succ less)
  · exact goingBefore earlier before
  · exact going

/-- Over a base that differs only where it is not awaited, the part goes the same way. -/
theorem InProgress.onto_eq (runs : InProgress part now)
    {base base' : (awaited : Awaited) → Stack awaited} (same : part.onto base = part.onto base') :
    now.onto base = now.onto base' := by
  obtain ⟨steps, rfl, going⟩ := runs
  rw [← run_onto base steps going, same, run_onto base' steps going]

/-- A base that has a frame only for results of this sort. -/
def aside : Awaited → (awaited : Awaited) → Stack awaited
  | .value, .value => .push .call .empty
  | .flow, .flow => .push (.leave none) .empty
  | _, _ => .empty

/-- An expression ends with a value, or with a fault. -/
theorem InProgress.ends_of_evaluate {expr : Expr}
    (runs : InProgress (.evaluate world expr .empty) now) (done : now.isDone = true) :
    (∃ value ended, now = .answer ended value .empty ∧
        Ends (.evaluate world expr .empty) value ended) ∨
      ∃ fault ended, now = .raise ended fault (.empty : Stack .value) ∧
        Fails (.evaluate world expr .empty) fault ended := by
  have same := runs.onto_eq (show onto (aside .flow) (.evaluate world expr .empty) =
    onto (around .empty) (.evaluate world expr .empty) from rfl)
  obtain ⟨steps, reached, _⟩ := runs
  cases now with
  | evaluate => cases done
  | execute => cases done
  | answer ended value stack =>
      cases stack with
      | empty => exact .inl ⟨value, ended, rfl, steps, reached.symm⟩
      | push frame rest => cases done
  | finish ended flow stack =>
      cases stack with
      | empty => cases same
      | push frame rest => cases done
  | @raise awaited ended fault stack =>
      cases stack with
      | empty =>
          cases awaited with
          | value => exact .inr ⟨fault, ended, rfl, steps, .value, reached.symm⟩
          | flow => cases same
      | push frame rest => cases done

/-- A statement ends with a flow, or with a fault. -/
theorem InProgress.ends_of_execute {stmt : Stmt}
    (runs : InProgress (.execute world stmt .empty) now) (done : now.isDone = true) :
    (∃ flow ended, now = .finish ended flow .empty ∧ world.Executes stmt flow ended) ∨
      ∃ fault ended, now = .raise ended fault (.empty : Stack .flow) ∧
        Fails (.execute world stmt .empty) fault ended := by
  have same := runs.onto_eq (show onto (aside .value) (.execute world stmt .empty) =
    onto (underneath .empty) (.execute world stmt .empty) from rfl)
  obtain ⟨steps, reached, _⟩ := runs
  cases now with
  | evaluate => cases done
  | execute => cases done
  | answer ended value stack =>
      cases stack with
      | empty => cases same
      | push frame rest => cases done
  | finish ended flow stack =>
      cases stack with
      | empty => exact .inl ⟨flow, ended, rfl, steps, reached.symm⟩
      | push frame rest => cases done
  | @raise awaited ended fault stack =>
      cases stack with
      | empty =>
          cases awaited with
          | value => cases same
          | flow => exact .inr ⟨fault, ended, rfl, steps, .flow, reached.symm⟩
      | push frame rest => cases done

/-- Whatever is done is done in the place where it began. -/
theorem Begins.samePlace (begins : part.Begins world) (within : world.callDepth ≤ world.callLimit)
    (steps : Nat) (done : (part.run steps).isDone = true) :
    World.SamePlace world (part.run steps).world := by
  have balanced := (begins.balanced within).run steps
  obtain ⟨scope, callDepth⟩ := balanced.restored done
  exact ⟨scope, callDepth, balanced.callLimit⟩

end Machine

/-! ## Rounds -/

namespace Loop

variable {loop : Loop} {increment : Expr} {stack : Stack .flow} {before : World} {machine : Machine}

/-- The condition is tested, and this is how it turns out. -/
def Tests (loop : Loop) (before : World) (truth : Bool) (tested : World) : Prop :=
  ∃ value, Machine.Ends (.evaluate before loop.condition .empty) value tested ∧
    value.isTruthy = truth

/-- The condition holds, and the body ends normally or with a `continue`, in the scope in which
the condition was tested. -/
def GoesOn (loop : Loop) (before ended : World) : Prop :=
  ∃ tested flow, loop.Tests before true tested ∧ tested.Executes loop.body flow ended ∧
    (flow = .normal ∨ flow = .continue) ∧ ended.scope = before.scope

/-- From one test of the condition to the next, with the increment evaluated once in between. -/
def Round (loop : Loop) (increment : Expr) (before after : World) : Prop :=
  ∃ ended result, loop.GoesOn before ended ∧
    Machine.Ends (.evaluate ended increment .empty) result after

/-- The machine is in the round that begins in this world: it tests the condition, executes the
body, or evaluates the increment. -/
inductive Stage (loop : Loop) (increment : Expr) (stack : Stack .flow) (before : World) :
    Machine → Prop
  | testing {now : Machine}
      (runs : Machine.InProgress (.evaluate before loop.condition .empty) now) :
      Stage loop increment stack before (now.onto (Machine.around (.push (.condition loop) stack)))
  | executing {tested : World} {now : Machine} (tests : loop.Tests before true tested)
      (runs : Machine.InProgress (.execute tested loop.body .empty) now) :
      Stage loop increment stack before (now.onto (Machine.underneath (.push (.round loop) stack)))
  | incrementing {ended : World} {now : Machine} (goesOn : loop.GoesOn before ended)
      (runs : Machine.InProgress (.evaluate ended increment .empty) now) :
      Stage loop increment stack before (now.onto (Machine.around (.push (.increment loop) stack)))

/-- The machine leaves the loop in the round that begins in this world. -/
inductive Leaves (loop : Loop) (increment : Expr) (stack : Stack .flow) (before : World) :
    Machine → Prop
  | finished {tested : World} (tests : loop.Tests before false tested) :
      Leaves loop increment stack before (.finish tested .normal stack)
  | broken {tested ended : World} (tests : loop.Tests before true tested)
      (executes : tested.Executes loop.body .break ended) :
      Leaves loop increment stack before (.finish ended .normal stack)
  | returned {tested ended : World} {result : Value} (tests : loop.Tests before true tested)
      (executes : tested.Executes loop.body (.return result) ended) :
      Leaves loop increment stack before (.finish ended (.return result) stack)
  | failedTest {ended : World} {fault : Fault}
      (fails : Machine.Fails (.evaluate before loop.condition .empty) fault ended) :
      Leaves loop increment stack before (.raise ended fault stack)
  | failedBody {tested ended : World} {fault : Fault} (tests : loop.Tests before true tested)
      (fails : Machine.Fails (.execute tested loop.body .empty) fault ended) :
      Leaves loop increment stack before (.raise ended fault stack)
  | failedIncrement {ended last : World} {fault : Fault} (goesOn : loop.GoesOn before ended)
      (fails : Machine.Fails (.evaluate ended increment .empty) fault last) :
      Leaves loop increment stack before (.raise last fault stack)

/-! ## Places -/

theorem samePlace_of_ends {expr : Expr} {value : Value} {ended : World}
    (ends : Machine.Ends (.evaluate before expr .empty) value ended)
    (within : before.callDepth ≤ before.callLimit) : World.SamePlace before ended := by
  obtain ⟨steps, reached⟩ := ends
  have same := (Machine.Begins.evaluate expr).samePlace within steps (by rw [reached]; rfl)
  rwa [reached] at same

theorem samePlace_of_executes {stmt : Stmt} {flow : Flow} {ended : World}
    (executes : before.Executes stmt flow ended) (within : before.callDepth ≤ before.callLimit) :
    World.SamePlace before ended := by
  obtain ⟨steps, reached⟩ := executes
  have same := (Machine.Begins.execute stmt).samePlace within steps (by rw [reached]; rfl)
  rwa [reached] at same

/-- In the same place there is room for as many calls. -/
theorem within_of_samePlace {after : World} (same : World.SamePlace before after)
    (within : before.callDepth ≤ before.callLimit) : after.callDepth ≤ after.callLimit := by
  rw [same.callDepth, same.callLimit]
  exact within

theorem Tests.samePlace {truth : Bool} {tested : World} (tests : loop.Tests before truth tested)
    (within : before.callDepth ≤ before.callLimit) : World.SamePlace before tested := by
  obtain ⟨value, ends, _⟩ := tests
  exact samePlace_of_ends ends within

theorem GoesOn.samePlace {ended : World} (goesOn : loop.GoesOn before ended)
    (within : before.callDepth ≤ before.callLimit) : World.SamePlace before ended := by
  obtain ⟨tested, flow, tests, executes, _, _⟩ := goesOn
  have same := tests.samePlace within
  exact same.trans (samePlace_of_executes executes (within_of_samePlace same within))

theorem Round.samePlace {after : World} (round : loop.Round increment before after)
    (within : before.callDepth ≤ before.callLimit) : World.SamePlace before after := by
  obtain ⟨ended, result, goesOn, ends⟩ := round
  have same := goesOn.samePlace within
  exact same.trans (samePlace_of_ends ends (within_of_samePlace same within))

/-- All rounds are in the place of the loop. -/
theorem samePlace_of_rounds {world last : World}
    (rounds : Relation.ReflTransGen (loop.Round increment) world last)
    (within : world.callDepth ≤ world.callLimit) : World.SamePlace world last := by
  induction rounds with
  | refl => exact .refl world
  | tail _ round inductionHypothesis =>
      exact inductionHypothesis.trans
        (round.samePlace (within_of_samePlace inductionHypothesis within))

/-! ## Steps -/

/-- A step stays in the round, begins the next one, or leaves the loop. -/
theorem Stage.next (stage : Stage loop increment stack before machine)
    (increments : loop.increment = some increment) (within : before.callDepth ≤ before.callLimit) :
    ∃ last, Relation.ReflTransGen (loop.Round increment) before last ∧
      (Stage loop increment stack last machine.next ∨
        Leaves loop increment stack last machine.next) := by
  cases stage with
  | @testing now runs =>
      refine ⟨before, .refl, ?_⟩
      cases done : now.isDone with
      | false =>
          rw [Machine.next_onto _ done]
          exact .inl (.testing (runs.next done))
      | true =>
          obtain ⟨value, tested, rfl, ends⟩ | ⟨fault, ended, rfl, fails⟩ :=
            runs.ends_of_evaluate done
          · cases truth : value.isTruthy with
            | true =>
                have enters : Machine.next (.answer tested value (.push (.condition loop) stack)) =
                    .execute tested loop.body (.push (.round loop) stack) := by
                  simp only [Machine.next, Machine.giveValue, truth, if_true]
                exact .inl (enters ▸ .executing ⟨value, ends, truth⟩ (.begin _))
            | false =>
                have leaves : Machine.next (.answer tested value (.push (.condition loop) stack)) =
                    .finish tested .normal stack := by
                  simp only [Machine.next, Machine.giveValue, truth, Bool.false_eq_true, if_false]
                exact .inr (leaves ▸ .finished ⟨value, ends, truth⟩)
          · exact .inr (.failedTest fails)
  | @executing tested now tests runs =>
      refine ⟨before, .refl, ?_⟩
      cases done : now.isDone with
      | false =>
          rw [Machine.next_onto _ done]
          exact .inl (.executing tests (runs.next done))
      | true =>
          obtain ⟨flow, ended, rfl, executes⟩ | ⟨fault, ended, rfl, fails⟩ :=
            runs.ends_of_execute done
          · have same := (tests.samePlace within).trans (samePlace_of_executes executes
              (within_of_samePlace (tests.samePlace within) within))
            have again : (flow = .normal ∨ flow = .continue) →
                Machine.next (.finish ended flow (.push (.round loop) stack)) =
                    .evaluate ended increment (.push (.increment loop) stack) →
                Stage loop increment stack before
                  (Machine.next (.finish ended flow (.push (.round loop) stack))) := by
              intro flows steps
              exact steps ▸
                .incrementing ⟨tested, flow, tests, executes, flows, same.scope⟩ (.begin _)
            cases flow with
            | normal =>
                exact .inl (again (.inl rfl)
                  (by simp only [Machine.next, Machine.giveFlow, increments]))
            | «continue» =>
                exact .inl (again (.inr rfl)
                  (by simp only [Machine.next, Machine.giveFlow, increments]))
            | «break» => exact .inr (.broken tests executes)
            | «return» result => exact .inr (.returned tests executes)
          · exact .inr (.failedBody tests fails)
  | @incrementing ended now goesOn runs =>
      cases done : now.isDone with
      | false =>
          rw [Machine.next_onto _ done]
          exact ⟨before, .refl, .inl (.incrementing goesOn (runs.next done))⟩
      | true =>
          obtain ⟨value, after, rfl, ends⟩ | ⟨fault, last, rfl, fails⟩ := runs.ends_of_evaluate done
          · exact ⟨after, .single ⟨ended, value, goesOn, ends⟩, .inl (.testing (.begin _))⟩
          · exact ⟨before, .refl, .inr (.failedIncrement goesOn fails)⟩

/-! ## Runs -/

/-- Executed in this world, the loop goes in rounds. Every moment of the run comes after whole
rounds, in the scope of the loop, and is in a stage of the next round or comes after the run has
left the loop in that round. -/
def InRounds (loop : Loop) (increment : Expr) (world : World) (span : Span) (stack : Stack .flow) :
    Prop :=
  ∀ steps : Nat,
    let machine := Machine.execute world (.loop loop.condition loop.body loop.increment span) stack
    ∃ last, Relation.ReflTransGen (loop.Round increment) world last ∧ last.scope = world.scope ∧
      (Stage loop increment stack last (machine.run (steps + 1)) ∨
        ∃ earlier ≤ steps + 1, Leaves loop increment stack last (machine.run earlier))

/-- A loop with an increment goes in rounds. -/
theorem inRounds (increments : loop.increment = some increment) {world : World}
    (within : world.callDepth ≤ world.callLimit) (span : Span) (stack : Stack .flow) :
    loop.InRounds increment world span stack := by
  intro steps machine
  induction steps with
  | zero => exact ⟨world, .refl, rfl, .inl (.testing (.begin _))⟩
  | succ steps inductionHypothesis =>
      obtain ⟨last, rounds, scope, stage | ⟨earlier, le, leaves⟩⟩ := inductionHypothesis
      · have here := samePlace_of_rounds rounds within
        obtain ⟨next, more, reached⟩ := stage.next increments (within_of_samePlace here within)
        rw [← Machine.run_succ] at reached
        refine ⟨next, rounds.trans more, (samePlace_of_rounds (rounds.trans more) within).scope, ?_⟩
        obtain stage | leaves := reached
        · exact .inl stage
        · exact .inr ⟨steps + 1 + 1, Nat.le_refl _, leaves⟩
      · exact ⟨last, rounds, scope, .inr ⟨earlier, Nat.le_succ_of_le le, leaves⟩⟩

end Loop

/-- The machine is about to execute a loop with an increment. -/
def Machine.startsFor : Machine → Bool
  | .execute _ (.loop _ _ increment _) _ => increment.isSome
  | _ => false

theorem Machine.exists_loop_of_startsFor {machine : Machine} (starts : machine.startsFor = true) :
    ∃ (world : World) (loop : Loop) (increment : Expr) (span : Span) (stack : Stack .flow),
      loop.increment = some increment ∧
        machine = .execute world (.loop loop.condition loop.body loop.increment span) stack := by
  cases machine with
  | execute world stmt stack =>
      cases stmt with
      | loop condition body increment span =>
          obtain ⟨increment, rfl⟩ := Option.isSome_iff_exists.mp starts
          exact ⟨world, ⟨condition, body, some increment⟩, increment, span, stack, rfl, rfl⟩
      | _ => cases starts
  | _ => cases starts

/-- A block executes its first statement in an environment of its own, and if that ends normally the
second one in the same environment. -/
theorem Machine.exists_run_second {world begins : World} {first second : Stmt}
    (within : world.callDepth ≤ world.callLimit) (span : Span) (stack : Stack .flow)
    (executes : (world.enter world.scope #[]).Executes first .normal begins) :
    begins.scope = (world.enter world.scope #[]).scope ∧
      ∃ steps, (Machine.execute world (.block [first, second] span) stack).run steps =
        .execute begins second (.push (.sequence []) (.push (.leave world.scope) stack)) := by
  refine ⟨(Loop.samePlace_of_executes executes within).scope, ?_⟩
  obtain ⟨steps, reached⟩ := execute_onto executes
    (.push (.sequence [second]) (.push (.leave world.scope) stack))
  refine ⟨1 + steps + 1, ?_⟩
  rw [run_add, run_add]
  show ((Machine.execute (world.enter world.scope #[]) first _).run steps).run 1 = _
  rw [reached]
  rfl

/-! ## Sessions -/

namespace Session

/-- Statements are begun at top level. -/
theorem callDepth_of_begun (callLimit : Nat) (outlet : Outlet) (clock : Clock) (budget : Nat)
    {requests : List Request}
    (honest : ServedHonestly budget requests (new callLimit outlet clock)) :
    ∀ entry ∈ begun budget requests (new callLimit outlet clock), entry.1.callDepth = 0 := by
  have answers (session : Session) (request : Request) (aligned : session.Aligned)
      (_ : request.Honest session.world) : (session.answer budget request).2.Aligned :=
    aligned.answer budget request
  refine begun_of_kept answers (fun session request aligned => ?_) honest
    (aligned_new callLimit outlet clock)
  refine begunBy_of_accepted fun program _ _ entry member => ?_
  have top : session.world.clearOutput.callDepth = 0 :=
    (World.atTopLevel_eq_self_iff.mp aligned.top).2
  have kept (world : World) (stmt : Stmt) (reached : World) (outside : world.callDepth = 0)
      (_ : True) (completed : world.runStatement budget stmt = (.completed, reached)) :
      reached.callDepth = 0 := by
    have within : world.callDepth ≤ world.callLimit := by
      rw [outside]
      exact Nat.zero_le _
    exact (World.restored_runStatement within completed).2.trans outside
  exact (World.begun_of_kept kept top (fun _ _ => trivial) entry member).1

/-- No more calls are in progress than the limit allows. -/
theorem within_of_begun (callLimit : Nat) (outlet : Outlet) (clock : Clock) (budget : Nat)
    {requests : List Request}
    (honest : ServedHonestly budget requests (new callLimit outlet clock)) :
    ∀ entry ∈ begun budget requests (new callLimit outlet clock), ∀ steps : Nat,
      ((Machine.execute entry.1 entry.2 .empty).run steps).world.callDepth ≤
        ((Machine.execute entry.1 entry.2 .empty).run steps).world.callLimit := by
  intro entry member steps
  have outside := callDepth_of_begun callLimit outlet clock budget honest entry member
  have balanced := ((Machine.Begins.execute entry.2).balanced
    (by rw [outside]; exact Nat.zero_le _)).run steps
  generalize Machine.run steps (.execute entry.1 entry.2 .empty) = machine at balanced ⊢
  cases machine <;> exact balanced.within

end Session

end Lox
