import Lox.Proofs.Lexical.EmptyCell
import Lox.Proofs.Lexical.Refinement
import Lox.Proofs.Running.HigherLimit
import Lox.Proofs.Unfolding.Step

/-!
Contract: runs of a program, and of the program with loops written out.

By name the two runs go on side by side, the second one with more steps. Each of them mirrors a
run with slots, and so these are side by side as well. If one comes to an end, the other does, in
the same way and with the same output. A variable without a value has the same slot in both runs,
but the second one may have to go further outwards to find it.

The budgets of steps are no part of this: one run may need more steps than the other.

Main statement: `World.Parallel.interpret`.

Owns: verdicts that resemble each other; statements and programs side by side. Does not own:
sessions.
-/

set_option autoImplicit false

namespace Lox

/-! ## Faults and verdicts -/

/-- The faults have the same cause, but that a missing local may be at another depth. -/
inductive Fault.Resembles : Fault → Fault → Prop
  | same {cause : Fault.Cause} {span span' : Span} : Fault.Resembles ⟨cause, span⟩ ⟨cause, span'⟩
  | missingLocal {depth depth' slot : Nat} {span span' : Span} :
      Fault.Resembles (.ofBreach (.missingLocal depth slot) span)
        (.ofBreach (.missingLocal depth' slot) span')

/-- Both programs have ended, in the same way. -/
inductive Verdict.Resembles : Verdict → Verdict → Prop
  | completed : Verdict.Resembles .completed .completed
  | failed {fault fault' : Fault} (faults : fault.Resembles fault') :
      Verdict.Resembles (.failed fault) (.failed fault')

theorem Verdict.Resembles.ended {verdict other : Verdict} (resembles : verdict.Resembles other) :
    verdict ≠ .unfinished ∧ other ≠ .unfinished := by
  cases resembles <;> simp

variable {outlet : Outlet}

open Lexical in
/-- Mishaps that are alike show as faults that resemble each other, if empty cells show at the
same slot. -/
theorem Lexical.Mishap.Alike.resembles {mishap mishap' : Mishap} (alike : mishap.Alike mishap')
    {fault fault' : Fault} (shows : mishap.Shows outlet fault) (shows' : mishap'.Shows outlet fault')
    (slots : ∀ name span span', mishap = .emptyCell name span → mishap' = .emptyCell name span' →
      fault.Resembles fault') : fault.Resembles fault' := by
  cases alike with
  | violation =>
      obtain rfl := shows
      obtain rfl := shows'
      exact .same
  | stackOverflow =>
      obtain rfl := shows
      obtain rfl := shows'
      exact .same
  | output =>
      obtain ⟨_, rfl⟩ := shows
      obtain ⟨_, rfl⟩ := shows'
      exact .same
  | emptyCell => exact slots _ _ _ rfl rfl

/-! ## Machines -/

namespace Machine

variable {machine other : Machine}

/-- By name, the machines are about to do the same. -/
def Parallel (outlet : Outlet) (machine other : Machine) : Prop :=
  ∃ named named', Lexical.Mirrors outlet named machine ∧ Lexical.Mirrors outlet named' other ∧
    Lexical.Abreast named named'

/-- The machines have failed alike, with the same output. -/
def FailAlike (machine other : Machine) : Prop :=
  ∃ fault fault', machine.fault? = some fault ∧ other.fault? = some fault' ∧
    fault.Resembles fault' ∧ other.world.printed = machine.world.printed

/-- The machines are side by side, or have failed alike. -/
def SideBySide (outlet : Outlet) (machine other : Machine) : Prop :=
  Parallel outlet machine other ∨ FailAlike machine other

theorem run_eq_iterate (steps : Nat) (machine : Machine) :
    machine.run steps = next^[steps] machine := by
  induction steps with
  | zero => rfl
  | succ steps inductionHypothesis =>
      rw [run_succ, inductionHypothesis, Function.iterate_succ_apply']

end Machine

end Lox

namespace Lox.Lexical

variable {outlet : Outlet}

theorem Mirrors.iterate {named : Machine} {machine : Lox.Machine}
    (mirrors : Mirrors outlet named machine) (steps : Nat) :
    Mirrors outlet (Machine.next^[steps] named) (Lox.Machine.next^[steps] machine) := by
  induction steps with
  | zero => exact mirrors
  | succ steps inductionHypothesis =>
      rw [Function.iterate_succ_apply', Function.iterate_succ_apply']
      exact inductionHypothesis.next

/-- A mishap is mirrored by a fault as which it shows. -/
theorem Mirrors.raised {world : World} {mishap : Mishap} {awaited : Awaited} {stack : Stack awaited}
    {machine : Lox.Machine} (mirrors : Mirrors outlet (.raise world mishap stack) machine) :
    ∃ fault, machine = .raise world.erase fault stack ∧ mishap.Shows outlet fault := by
  cases mirrors with
  | raise sound shows => exact ⟨_, rfl, shows⟩

theorem Abreast.emptyCell? {named named' : Machine} (abreast : Abreast named named') :
    named.emptyCell? = none ∧ named'.emptyCell? = none := by
  cases abreast <;> exact ⟨rfl, rfl⟩

theorem StacksAlike.empty_iff {pair : Pair} {awaited : Awaited} {free : Bool}
    {scope scope' : Option EnvironmentRef} {stack stack' : Stack awaited}
    (rests : StacksAlike pair free scope scope' stack stack') :
    stack = .empty ↔ stack' = .empty := by
  cases rests <;> simp

theorem Abreast.isDone {named named' : Machine} (abreast : Abreast named named') :
    named'.isDone = named.isDone := by
  cases abreast with
  | evaluate holds unfolds => rfl
  | execute holds unfolds declares continues => rfl
  | @answer _ _ _ _ _ stack stack' _ holds alike =>
      have empty := holds.rests.empty_iff
      cases stack <;> cases stack' <;> simp_all [Machine.isDone]
  | @finish _ _ _ _ _ stack stack' _ holds alike continues =>
      have empty := holds.rests.empty_iff
      cases stack <;> cases stack' <;> simp_all [Machine.isDone]

end Lox.Lexical

namespace Lox

variable {outlet : Outlet}

namespace Machine

variable {machine other : Machine}

/-- Machines that fail in the same step fail alike. -/
theorem failAlike_next {named named' : Lexical.Machine}
    (mirrors : Lexical.Mirrors outlet named machine)
    (mirrors' : Lexical.Mirrors outlet named' other) (abreast : Lexical.Abreast named named')
    {world world' : Lexical.World} {mishap mishap' : Lexical.Mishap} {awaited : Awaited}
    {stack stack' : Stack awaited} (fails : named.next = .raise world mishap stack)
    (fails' : named'.next = .raise world' mishap' stack') (alike : mishap.Alike mishap')
    (printed : world'.printed = world.printed)
    (slots : ∀ name, (Binding.addressIn name (Lexical.viewFrom world'.place)).map Address.slot =
      (Binding.addressIn name (Lexical.viewFrom world.place)).map Address.slot) :
    FailAlike machine.next other.next := by
  obtain ⟨calm, calm'⟩ := abreast.emptyCell?
  obtain ⟨fault, raised, shows⟩ := Lexical.Mirrors.raised (fails ▸ mirrors.next)
  obtain ⟨fault', raised', shows'⟩ := Lexical.Mirrors.raised (fails' ▸ mirrors'.next)
  have faults : fault.Resembles fault' := by
    refine alike.resembles shows shows' ?_
    rintro name span span' rfl rfl
    obtain ⟨address, _, addressed, shown⟩ := mirrors.emptyCell_next calm (by rw [fails]; rfl)
    obtain ⟨address', _, addressed', shown'⟩ := mirrors'.emptyCell_next calm' (by rw [fails']; rfl)
    simp only [fails, fails', Lexical.Machine.world] at addressed addressed'
    have sameSlot := slots name
    rw [addressed, addressed'] at sameSlot
    have sameSlot : address'.slot = address.slot := Option.some.inj sameSlot
    rw [raised] at shown
    rw [raised'] at shown'
    obtain rfl := Option.some.inj shown
    obtain rfl := Option.some.inj shown'
    rw [sameSlot]
    exact .missingLocal
  rw [raised, raised']
  exact ⟨fault, fault', rfl, rfl, faults, printed⟩

/-- Machines that have failed alike do so for ever. -/
theorem FailAlike.next (alike : FailAlike machine other) :
    FailAlike machine.next other ∧ FailAlike machine other.next := by
  obtain ⟨fault, fault', raised, raised', faults, printed⟩ := alike
  obtain ⟨stays, prints⟩ := fault?_next raised
  obtain ⟨stays', prints'⟩ := fault?_next raised'
  exact ⟨⟨fault, fault', stays, raised', faults, printed.trans prints.symm⟩,
    fault, fault', raised, stays', faults, prints'.trans printed⟩

/-- One step of the first machine, and as many as it takes of the other one. -/
theorem SideBySide.next (sides : SideBySide outlet machine other) :
    ∃ more, SideBySide outlet machine.next (other.run (more + 1)) := by
  obtain ⟨named, named', mirrors, mirrors', abreast⟩ | alike := sides
  · cases done : machine.isDone with
    | true =>
        -- Where the one is done, the other is too.
        have done' : other.isDone = true := by
          rw [← mirrors'.isDone, abreast.isDone, mirrors.isDone, done]
        refine ⟨0, .inl ⟨named, named', ?_, ?_, abreast⟩⟩
        · rwa [next_of_isDone done]
        · rwa [run_of_isDone done']
    | false =>
        obtain arrives | ⟨more, later⟩ := abreast.next (mirrors.isDone.trans done)
        · refine ⟨0, ?_⟩
          rw [run_eq_iterate]
          generalize reached : named.next = one at arrives
          generalize reached' : named'.next = two at arrives
          cases arrives with
          | abreast abreast =>
              exact .inl ⟨one, two, reached ▸ mirrors.next, reached' ▸ mirrors'.next, abreast⟩
          | failed alike printed slots =>
              exact .inr
                (failAlike_next mirrors mirrors' abreast reached reached' alike printed slots)
        · refine ⟨more, .inl ⟨named.next, _, mirrors.next, ?_, later⟩⟩
          rw [run_eq_iterate, Function.iterate_succ_apply]
          exact mirrors'.next.iterate more
  · refine ⟨0, .inr ?_⟩
    rw [run_eq_iterate]
    exact alike.next.1.next.2

/-- Any number of steps of the first machine, and no fewer of the other one. -/
theorem SideBySide.run (sides : SideBySide outlet machine other) (steps : Nat) :
    ∃ enough, steps ≤ enough ∧ SideBySide outlet (machine.run steps) (other.run enough) := by
  induction steps with
  | zero => exact ⟨0, Nat.le_refl 0, sides⟩
  | succ steps inductionHypothesis =>
      obtain ⟨enough, le, sides⟩ := inductionHypothesis
      obtain ⟨more, sides⟩ := sides.next
      refine ⟨enough + (more + 1), by omega, ?_⟩
      rw [run_succ, run_add]
      exact sides

/-- Machines that have failed alike do so while the fault gets out. -/
theorem FailAlike.run (alike : FailAlike machine other) (steps : Nat) :
    FailAlike machine (other.run steps) := by
  induction steps with
  | zero => exact alike
  | succ steps inductionHypothesis =>
      rw [run_succ]
      exact inductionHypothesis.next.2

/-- What has failed ends with its fault. -/
theorem exists_run_of_fault? {fault : Fault} (raised : machine.fault? = some fault) :
    ∃ steps, (machine.run steps).verdict = .failed fault := by
  cases machine with
  | raise world found stack =>
      obtain rfl := Option.some.inj raised
      exact exists_run_raise world found stack
  | _ => cases raised

theorem fault?_of_verdict {fault : Fault} (failed : machine.verdict = .failed fault) :
    machine.fault? = some fault := by
  unfold verdict at failed
  split at failed
  · cases failed
  · exact congrArg some (Verdict.failed.inj failed)
  · cases failed

end Machine

/-! ## Statements -/

/-- By name, the worlds are alike between two statements. -/
def World.Parallel (outlet : Outlet) (world other : World) : Prop :=
  ∃ pair : Lexical.Pair, pair.Alike ∧ pair.world.Idle outlet ∧ pair.other.Idle outlet ∧
    world = pair.world.erase ∧ other = pair.other.erase

theorem Lexical.World.Idle.mirrors {world : Lexical.World} (idle : world.Idle outlet) {stmt : Stmt}
    (bound : stmt.Bound []) :
    Lexical.Mirrors outlet (.execute world stmt .empty) (.execute world.erase stmt .empty) := by
  have noneWaits : world.setting.pending = none := by rw [idle.setting]
  have boundHere : stmt.Bound world.setting.context := by
    rw [idle.setting]
    exact bound
  exact .execute idle.ready noneWaits boundHere idle.scope

namespace Machine

variable {machine other : Machine}

/-- A statement that is done has completed in both runs, or failed in both. -/
theorem Parallel.ended (parallel : Parallel outlet machine other) :
    (machine.verdict ≠ .unfinished ↔ other.verdict ≠ .unfinished) ∧
      (machine.verdict ≠ .unfinished → machine.verdict = .completed ∧ other.verdict = .completed ∧
        World.Parallel outlet machine.world other.world) := by
  obtain ⟨named, named', mirrors, mirrors', abreast⟩ := parallel
  cases abreast with
  | evaluate holds unfolds =>
      cases mirrors
      cases mirrors'
      exact ⟨Iff.rfl, fun ended => absurd rfl ended⟩
  | execute holds unfolds declares continues =>
      cases mirrors
      cases mirrors'
      exact ⟨Iff.rfl, fun ended => absurd rfl ended⟩
  | answer holds alike =>
      cases mirrors
      cases mirrors'
      exact ⟨Iff.rfl, fun ended => absurd rfl ended⟩
  | @finish partners world other _ _ stack stack' _ holds alike continues =>
      have empty := holds.rests.empty_iff
      cases mirrors with
      | finish ready known fits =>
          cases mirrors' with
          | finish ready' known' fits' =>
              cases stack with
              | empty =>
                  obtain rfl := empty.mp rfl
                  exact ⟨Iff.rfl, fun _ => ⟨rfl, rfl, ⟨partners, world, other⟩, holds.alike,
                    ⟨ready.sound, fits⟩, ⟨ready'.sound, fits'⟩, rfl, rfl⟩⟩
              | push frame rest =>
                  cases stack' with
                  | empty => cases empty.mpr rfl
                  | push frame' rest' => exact ⟨Iff.rfl, fun ended => absurd rfl ended⟩

/-- When the first machine has ended, the other one ends likewise. -/
theorem SideBySide.ended (sides : SideBySide outlet machine other)
    (ended : machine.verdict ≠ .unfinished) :
    ∃ more, Verdict.Resembles machine.verdict (other.run more).verdict ∧
      (other.run more).world.printed = machine.world.printed ∧
      (machine.verdict = .completed → World.Parallel outlet machine.world (other.run more).world) := by
  obtain parallel | alike := sides
  · obtain ⟨completed, completed', worlds⟩ := parallel.ended.2 ended
    refine ⟨0, ?_, ?_, fun _ => worlds⟩
    · rw [completed, show other.run 0 = other from rfl, completed']
      exact .completed
    · obtain ⟨pair, both, _, _, here, there⟩ := worlds
      rw [here, show other.run 0 = other from rfl, there]
      exact both.printed
  · obtain ⟨fault, fault', raised, raised', faults, _⟩ := id alike
    obtain ⟨more, failed'⟩ := exists_run_of_fault? raised'
    obtain ⟨_, _, _, _, _, printed⟩ := alike.run more
    have failed : machine.verdict = .failed fault := by
      cases found : machine.verdict with
      | completed =>
          unfold verdict at found
          split at found <;> cases found
          cases raised
      | failed other =>
          rw [fault?_of_verdict found] at raised
          rw [Option.some.inj raised]
      | unfinished => exact absurd found ended
    refine ⟨more, ?_, printed, fun completed => ?_⟩
    · rw [failed, failed']
      exact .failed faults
    · rw [failed] at completed
      cases completed

/-- When the other machine has ended, the first one ends too. -/
theorem SideBySide.ended_of_other (sides : SideBySide outlet machine other)
    (ended : other.verdict ≠ .unfinished) : ∃ more, (machine.run more).verdict ≠ .unfinished := by
  obtain parallel | ⟨fault, _, raised, _⟩ := sides
  · exact ⟨0, parallel.ended.1.mpr ended⟩
  · obtain ⟨more, failed⟩ := exists_run_of_fault? raised
    refine ⟨more, ?_⟩
    simp [failed]

end Machine

namespace World

variable {world other : World} {stmt stmt' : Stmt}

theorem Parallel.execute (parallel : Parallel outlet world other) (bound : stmt.Bound [])
    (bound' : stmt'.Bound []) (unfolds : stmt.Unfolds stmt') :
    Machine.SideBySide outlet (.execute world stmt .empty) (.execute other stmt' .empty) := by
  obtain ⟨⟨partners, named, named'⟩, alike, idle, idle', rfl, rfl⟩ := parallel
  have level : Lexical.Pair.Level ⟨partners, named, named'⟩ named.scope named'.scope := by
    rw [show named.scope = none from idle.scope, show named'.scope = none from idle'.scope]
    exact .top
  have rests : Lexical.StacksAlike ⟨partners, named, named'⟩ true named.scope named'.scope
      (.empty : Stack .flow) .empty := by
    rw [show named.scope = none from idle.scope, show named'.scope = none from idle'.scope]
    exact .empty
  exact .inl ⟨_, _, idle.mirrors bound, idle'.mirrors bound',
    .execute ⟨alike, .level level, rests⟩ unfolds (fun _ => level) fun _ => rfl⟩

/-- When the statement has ended in the first run, it ends likewise in the other one. -/
theorem Parallel.runStatement (parallel : Parallel outlet world other) (bound : stmt.Bound [])
    (bound' : stmt'.Bound []) (unfolds : stmt.Unfolds stmt') {budget : Nat}
    (ended : (world.runStatement budget stmt).1 ≠ .unfinished) :
    ∃ enough,
      Verdict.Resembles (world.runStatement budget stmt).1 (other.runStatement enough stmt').1 ∧
      (other.runStatement enough stmt').2.printed = (world.runStatement budget stmt).2.printed ∧
      ((world.runStatement budget stmt).1 = .completed →
        Parallel outlet (world.runStatement budget stmt).2 (other.runStatement enough stmt').2) := by
  obtain ⟨enough, _, sides⟩ := (parallel.execute bound bound' unfolds).run budget
  simp only [runStatement_eq] at ended ⊢
  obtain ⟨more, ends⟩ := sides.ended ended
  refine ⟨enough + more, ?_⟩
  rw [Machine.run_add]
  exact ends

/-- When the statement has ended in the other run, it ends in the first one too. -/
theorem Parallel.runStatement_of_other (parallel : Parallel outlet world other)
    (bound : stmt.Bound []) (bound' : stmt'.Bound []) (unfolds : stmt.Unfolds stmt') {budget : Nat}
    (ended : (other.runStatement budget stmt').1 ≠ .unfinished) :
    ∃ enough, (world.runStatement enough stmt).1 ≠ .unfinished := by
  obtain ⟨enough, le, sides⟩ := (parallel.execute bound bound' unfolds).run budget
  have endedLater := ended
  rw [← runStatement_of_le le ended, runStatement_eq] at endedLater
  obtain ⟨more, ends⟩ := sides.ended_of_other endedLater
  refine ⟨budget + more, ?_⟩
  rw [runStatement_eq, Machine.run_add]
  exact ends

/-! ## Programs -/

theorem Parallel.clearOutput (parallel : Parallel outlet world other) :
    Parallel outlet world.clearOutput other.clearOutput := by
  obtain ⟨⟨partners, named, named'⟩, alike, idle, idle', rfl, rfl⟩ := parallel
  exact ⟨⟨partners, named.clearOutput, named'.clearOutput⟩,
    { alike with printed := rfl }, idle.clearOutput, idle'.clearOutput, rfl, rfl⟩

/-- A program that ends has a first statement that does. -/
theorem interpret_head_ended {world : World} {budget : Nat} {stmt : Stmt} {others : List Stmt}
    (ended : (world.interpret budget (stmt :: others)).1 ≠ .unfinished) :
    (world.runStatement budget stmt).1 ≠ .unfinished := by
  intro unfinished
  apply ended
  simp only [interpret]
  generalize world.runStatement budget stmt = outcome at unfinished ⊢
  obtain ⟨verdict, reached⟩ := outcome
  obtain rfl : verdict = .unfinished := unfinished
  rfl

/-- With steps enough for the first statement and for the others, a program goes on behind its
first statement. -/
theorem interpret_cons {world reached : World} {stmt : Stmt} {others : List Stmt}
    {enough more : Nat} (first : world.runStatement enough stmt = (.completed, reached))
    (ended : (reached.interpret more others).1 ≠ .unfinished) :
    world.interpret (max enough more) (stmt :: others) = reached.interpret more others := by
  have firstWithMore := runStatement_of_le (Nat.le_max_left enough more)
    (by rw [first]; simp)
  simp only [interpret]
  rw [firstWithMore, first]
  exact interpret_of_le (Nat.le_max_right enough more) ended

/-- When the program has ended in the first run, it ends likewise in the other one. -/
theorem Parallel.interpret (parallel : Parallel outlet world other) {stmts stmts' : List Stmt}
    (bound : boundStmts [] stmts) (bound' : boundStmts [] stmts')
    (unfold : StmtsUnfold stmts stmts') {budget : Nat} (ended : (world.interpret budget stmts).1 ≠ .unfinished) :
    ∃ enough,
      Verdict.Resembles (world.interpret budget stmts).1 (other.interpret enough stmts').1 ∧
      (other.interpret enough stmts').2.printed = (world.interpret budget stmts).2.printed := by
  induction stmts generalizing world other stmts' with
  | nil =>
      cases unfold with
      | nil =>
          obtain ⟨pair, alike, idle, idle', rfl, rfl⟩ := parallel
          have sameSink : pair.other.erase.sink = pair.world.erase.sink := by
            show pair.other.outlet.behind pair.other.written = _
            rw [alike.outlet, alike.written]
            rfl
          have printed : pair.other.erase.printed = pair.world.erase.printed := alike.printed
          refine ⟨budget, ?_⟩
          simp only [World.interpret, flushFault?, sameSink]
          cases pair.world.erase.sink.flushFailure with
          | none => exact ⟨.completed, printed⟩
          | some reason => exact ⟨.failed .same, printed⟩
  | cons stmt others inductionHypothesis =>
      cases unfold with
      | @cons _ stmt' _ others' unfolds unfoldOthers =>
          have endedFirst := interpret_head_ended ended
          have boundOthers : boundStmts [] others :=
            Lexical.World.contextAfter_top stmt ▸ bound.2
          have boundOthers' : boundStmts [] others' :=
            Lexical.World.contextAfter_top stmt' ▸ bound'.2
          obtain ⟨enough, verdicts, printed, goesOn⟩ :=
            parallel.runStatement bound.1 bound'.1 unfolds endedFirst
          simp only [World.interpret] at ended ⊢
          generalize world.runStatement budget stmt = outcome at *
          obtain ⟨verdict, reached⟩ := outcome
          cases ran : other.runStatement enough stmt' with
          | mk verdict' reached' =>
              rw [ran] at verdicts printed goesOn
              dsimp only at verdicts printed goesOn
              cases verdicts with
              | completed =>
                  obtain ⟨more, verdictsAfter, printedAfter⟩ :=
                    inductionHypothesis (goesOn rfl) boundOthers boundOthers' unfoldOthers ended
                  have goesOnThere := interpret_cons ran verdictsAfter.ended.2
                  refine ⟨max enough more, ?_⟩
                  simp only [World.interpret] at goesOnThere
                  rw [goesOnThere]
                  exact ⟨verdictsAfter, printedAfter⟩
              | failed faults =>
                  refine ⟨enough, ?_⟩
                  rw [ran]
                  exact ⟨.failed faults, printed⟩

/-- When the program has ended in the other run, it ends in the first one too. -/
theorem Parallel.interpret_of_other (parallel : Parallel outlet world other)
    {stmts stmts' : List Stmt} (bound : boundStmts [] stmts) (bound' : boundStmts [] stmts')
    (unfold : StmtsUnfold stmts stmts') {budget : Nat}
    (ended : (other.interpret budget stmts').1 ≠ .unfinished) :
    ∃ enough, (world.interpret enough stmts).1 ≠ .unfinished := by
  induction stmts generalizing world other stmts' with
  | nil =>
      refine ⟨0, ?_⟩
      simp only [World.interpret]
      split <;> simp
  | cons stmt others inductionHypothesis =>
      cases unfold with
      | @cons _ stmt' _ others' unfolds unfoldOthers =>
          have boundOthers : boundStmts [] others :=
            Lexical.World.contextAfter_top stmt ▸ bound.2
          have boundOthers' : boundStmts [] others' :=
            Lexical.World.contextAfter_top stmt' ▸ bound'.2
          have endedThere := interpret_head_ended ended
          obtain ⟨enough, endedFirst⟩ :=
            parallel.runStatement_of_other bound.1 bound'.1 unfolds endedThere
          obtain ⟨enoughOther, verdicts, _, goesOn⟩ :=
            parallel.runStatement bound.1 bound'.1 unfolds endedFirst
          -- The other run ends in one way only.
          have sameOther :
              other.runStatement enoughOther stmt' = other.runStatement budget stmt' := by
            rw [← runStatement_of_le (Nat.le_max_left enoughOther budget) verdicts.ended.2,
              runStatement_of_le (Nat.le_max_right enoughOther budget) endedThere]
          rw [sameOther] at verdicts goesOn
          simp only [World.interpret] at ended
          cases ran : world.runStatement enough stmt with
          | mk verdict reached =>
              cases ranOther : other.runStatement budget stmt' with
              | mk verdict' reached' =>
                  rw [ran, ranOther] at verdicts goesOn
                  rw [ranOther] at ended
                  dsimp only at verdicts goesOn
                  cases verdicts with
                  | completed =>
                      obtain ⟨more, endedOthers⟩ :=
                        inductionHypothesis (goesOn rfl) boundOthers boundOthers' unfoldOthers ended
                      refine ⟨max enough more, ?_⟩
                      rw [interpret_cons ran endedOthers]
                      exact endedOthers
                  | failed faults =>
                      refine ⟨enough, ?_⟩
                      simp only [World.interpret]
                      rw [ran]
                      simp

end World

end Lox
