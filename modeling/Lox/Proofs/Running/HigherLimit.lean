import Lox.Proofs.Rejection
import Lox.Proofs.Running.Limited
import Lox.Proofs.Running.Output

/-!
Contract: runs under a higher limit on calls.

Under a higher limit a run goes on as before, up to the call for which the lower limit has
no room. A run that never meets with a stack overflow is therefore the same under every
higher limit; and one that does has printed the beginning of what is printed where there is
more room.

The budget of steps is no part of this. A program that ends with some budget ends alike
with every larger one, and one that never ends prints the same with each.

Main statement: `Session.answer_limited`.

Owns: runs, programs and requests under two limits. Does not own: single steps.
-/

set_option autoImplicit false

namespace Lox

/-- The program ends in a stack overflow. -/
def Verdict.IsOverflow (verdict : Verdict) : Prop :=
  ∃ span, verdict = .failed ⟨.stackOverflow, span⟩

/-! ## Machines -/

namespace Machine

variable {limit : Nat} {lower higher machine : Machine}

/-- A machine that has gone its steps is one step behind the next. -/
theorem run_succ (steps : Nat) (machine : Machine) :
    machine.run (steps + 1) = (machine.run steps).next := by
  rw [run_add]
  by_cases done : (machine.run steps).isDone = true
  · rw [run_of_isDone done, next_of_isDone done]
  · simp [run, done]

/-- A fault on its way out stays, and prints nothing. -/
theorem fault?_next {fault : Fault} (raised : machine.fault? = some fault) :
    machine.next.fault? = some fault ∧ machine.next.world.printed = machine.world.printed := by
  cases machine with
  | raise world found stack =>
      cases stack with
      | empty => exact ⟨raised, rfl⟩
      | push frame rest => cases frame <;> exact ⟨raised, rfl⟩
  | _ => cases raised

/-- How a statement has ended, if this machine is its last. -/
def verdict : Machine → Verdict
  | .finish _ _ .empty => .completed
  | .raise _ fault .empty => .failed fault
  | _ => .unfinished

/-- Every fault gets out. -/
theorem exists_run_raise {awaited : Awaited} (world : World) (fault : Fault)
    (stack : Stack awaited) :
    ∃ steps, ((Machine.raise world fault stack).run steps).verdict = .failed fault := by
  induction stack generalizing world with
  | empty => exact ⟨0, rfl⟩
  | push frame rest inductionHypothesis =>
      obtain ⟨steps, ended⟩ := inductionHypothesis (unwind world frame)
      exact ⟨steps + 1, ended⟩

/-- The second machine is the first under the limit, or the first has met with a stack
overflow, and the second has printed no less. -/
def Outlasts (limit : Nat) (lower higher : Machine) : Prop :=
  higher = lower.limited limit ∨
    (∃ span, lower.fault? = some ⟨.stackOverflow, span⟩) ∧
      lower.world.printed.toList <+: higher.world.printed.toList

theorem Outlasts.printed (outlasts : Outlasts limit lower higher) :
    lower.world.printed.toList <+: higher.world.printed.toList := by
  obtain rfl | ⟨_, less⟩ := outlasts
  · rw [world_limited]
    exact List.prefix_refl _
  · exact less

theorem Outlasts.next (outlasts : Outlasts limit lower higher)
    (le : lower.world.callLimit ≤ limit) : Outlasts limit lower.next higher.next := by
  obtain rfl | ⟨⟨span, overflow⟩, less⟩ := outlasts
  · obtain same | ⟨overflow, printed⟩ := widens_next le
    · exact .inl same
    · have grows := (lower.limited limit).printed_next
      rw [world_limited] at grows
      refine .inr ⟨overflow, ?_⟩
      rw [printed]
      exact grows
  · obtain ⟨stays, printed⟩ := fault?_next overflow
    refine .inr ⟨⟨span, stays⟩, ?_⟩
    rw [printed]
    exact less.trans higher.printed_next

/-- Under a higher limit a run lasts at least as long. -/
theorem outlasts_run (machine : Machine) (le : machine.world.callLimit ≤ limit) (steps : Nat) :
    Outlasts limit (machine.run steps) ((machine.limited limit).run steps) := by
  induction steps with
  | zero => exact .inl rfl
  | succ steps inductionHypothesis =>
      have sameLimit : (machine.run steps).world.callLimit = machine.world.callLimit :=
        congrArg Host.callLimit (run_host steps machine)
      rw [run_succ, run_succ]
      exact inductionHypothesis.next (sameLimit ▸ le)

theorem verdict_limited (machine : Machine) : (machine.limited limit).verdict = machine.verdict := by
  cases machine with
  | finish world flow stack => cases stack <;> rfl
  | raise world fault stack => cases stack <;> rfl
  | _ => rfl

theorem isDone_of_verdict (ended : machine.verdict ≠ .unfinished) : machine.isDone = true := by
  unfold verdict at ended
  split at ended
  · rfl
  · rfl
  · exact absurd rfl ended

end Machine

/-! ## Statements -/

namespace World

variable {world : World} {limit budget : Nat}

theorem runStatement_eq (budget : Nat) (world : World) (stmt : Stmt) :
    world.runStatement budget stmt =
      ((Machine.run budget (.execute world stmt .empty)).verdict,
        (Machine.run budget (.execute world stmt .empty)).world) := by
  unfold runStatement
  cases Machine.run budget (.execute world stmt .empty) with
  | finish reached flow stack => cases stack <;> rfl
  | raise reached fault stack => cases stack <;> rfl
  | _ => rfl

/-- What has ended ends alike with more steps. -/
theorem runStatement_of_le {stmt : Stmt} {more : Nat} (le : budget ≤ more)
    (ended : (world.runStatement budget stmt).1 ≠ .unfinished) :
    world.runStatement more stmt = world.runStatement budget stmt := by
  rw [runStatement_eq] at ended
  obtain ⟨further, rfl⟩ := Nat.exists_eq_add_of_le le
  rw [runStatement_eq, runStatement_eq, Machine.run_add,
    Machine.run_of_isDone (Machine.isDone_of_verdict ended)]

theorem printed_runStatement_limited (le : world.callLimit ≤ limit) (budget : Nat) (stmt : Stmt) :
    (world.runStatement budget stmt).2.printed.toList <+:
      ((world.limited limit).runStatement budget stmt).2.printed.toList := by
  rw [runStatement_eq, runStatement_eq]
  exact (Machine.outlasts_run (.execute world stmt .empty) le budget).printed

/-- A statement that does not get into a stack overflow with this many steps ends alike under
a higher limit. -/
theorem runStatement_limited_of_calm (le : world.callLimit ≤ limit) {stmt : Stmt}
    (calm : ∀ span, (Machine.run budget (.execute world stmt .empty)).fault? ≠
      some ⟨.stackOverflow, span⟩) :
    (world.limited limit).runStatement budget stmt =
      ((world.runStatement budget stmt).1, (world.runStatement budget stmt).2.limited limit) := by
  obtain same | ⟨⟨span, overflow⟩, _⟩ :=
    Machine.outlasts_run (.execute world stmt .empty) le budget
  · have same : Machine.run budget (.execute (world.limited limit) stmt .empty) =
        (Machine.run budget (.execute world stmt .empty)).limited limit := same
    rw [runStatement_eq, runStatement_eq, same, Machine.verdict_limited, Machine.world_limited]
  · exact absurd overflow (calm span)

theorem runStatement_limited_of_completed (le : world.callLimit ≤ limit) {stmt : Stmt}
    {reached : World} (completed : world.runStatement budget stmt = (.completed, reached)) :
    (world.limited limit).runStatement budget stmt = (.completed, reached.limited limit) := by
  rw [runStatement_limited_of_calm le, completed]
  rw [runStatement_eq] at completed
  have verdict := (Prod.mk.inj completed).1
  intro span overflow
  cases ended : Machine.run budget (.execute world stmt .empty) with
  | raise last fault stack =>
      rw [ended] at verdict
      cases stack <;> cases verdict
  | _ =>
      rw [ended] at overflow
      cases overflow

/-- A statement that never ends in a stack overflow goes the same way under a higher limit. -/
theorem runStatement_limited (le : world.callLimit ≤ limit) {stmt : Stmt}
    (calm : ∀ enough, ¬ (world.runStatement enough stmt).1.IsOverflow) (budget : Nat) :
    (world.limited limit).runStatement budget stmt =
      ((world.runStatement budget stmt).1, (world.runStatement budget stmt).2.limited limit) := by
  refine runStatement_limited_of_calm le fun span overflow => ?_
  cases met : Machine.run budget (.execute world stmt .empty) with
  | raise last fault stack =>
      -- The overflow is on its way out, and needs but more steps.
      rw [met] at overflow
      obtain rfl := Option.some.inj overflow
      obtain ⟨steps, ended⟩ := Machine.exists_run_raise last ⟨.stackOverflow, span⟩ stack
      refine calm (budget + steps) ⟨span, ?_⟩
      rw [runStatement_eq, Machine.run_add, met, ended]
  | _ =>
      rw [met] at overflow
      cases overflow

/-! ## Programs -/

/-- A program that has ended ends alike with more steps. -/
theorem interpret_of_le {stmts : List Stmt} {more : Nat} (le : budget ≤ more)
    (ended : (world.interpret budget stmts).1 ≠ .unfinished) :
    world.interpret more stmts = world.interpret budget stmts := by
  induction stmts generalizing world with
  | nil => rfl
  | cons stmt others inductionHypothesis =>
      simp only [interpret] at ended ⊢
      cases ran : world.runStatement budget stmt with
      | mk verdict reached =>
          have same (ends : verdict ≠ .unfinished) :
              world.runStatement more stmt = (verdict, reached) := by
            rw [runStatement_of_le le (by rwa [ran]), ran]
          rw [ran] at ended
          cases verdict with
          | completed =>
              rw [same (by simp)]
              exact inductionHypothesis ended
          | failed fault => rw [same (by simp)]
          | unfinished => exact absurd rfl ended

/-- What is printed under a limit is the beginning of what is printed under a higher one. -/
theorem printed_interpret_limited (world : World) (le : world.callLimit ≤ limit) (budget : Nat)
    (stmts : List Stmt) :
    (world.interpret budget stmts).2.printed.toList <+:
      ((world.limited limit).interpret budget stmts).2.printed.toList := by
  induction stmts generalizing world with
  | nil =>
      have sameFault : (world.limited limit).flushFault? = world.flushFault? := rfl
      simp only [interpret, sameFault]
      split <;> exact List.prefix_refl _
  | cons stmt others inductionHypothesis =>
      have less := printed_runStatement_limited le budget stmt
      have kept : (world.runStatement budget stmt).2.callLimit = world.callLimit :=
        congrArg Host.callLimit (runStatement_host budget world stmt)
      -- Where the lower run stops at this statement, the higher one may go on.
      have more : ((world.limited limit).runStatement budget stmt).2.printed.toList <+:
          ((world.limited limit).interpret budget (stmt :: others)).2.printed.toList := by
        simp only [interpret]
        split
        · next reached ran =>
            rw [ran]
            exact printed_interpret budget others reached
        · next reached ran =>
            rw [ran]
            exact List.prefix_refl _
      cases ran : world.runStatement budget stmt with
      | mk verdict reached =>
          rw [ran] at less kept
          cases verdict with
          | completed =>
              simp only [interpret, ran, runStatement_limited_of_completed le ran]
              exact inductionHypothesis reached (kept ▸ le)
          | failed fault =>
              have stops : world.interpret budget (stmt :: others) =
                  (.failed fault, reached.atTopLevel) := by
                simp only [interpret, ran]
              rw [stops]
              exact less.trans more
          | unfinished =>
              have stops : world.interpret budget (stmt :: others) =
                  (.unfinished, reached.atTopLevel) := by
                simp only [interpret, ran]
              rw [stops]
              exact less.trans more

/-- A program that never ends in a stack overflow goes the same way under a higher limit. -/
theorem interpret_limited (world : World) (le : world.callLimit ≤ limit) {stmts : List Stmt}
    (calm : ∀ enough, ¬ (world.interpret enough stmts).1.IsOverflow) (budget : Nat) :
    (world.limited limit).interpret budget stmts =
      ((world.interpret budget stmts).1, (world.interpret budget stmts).2.limited limit) := by
  induction stmts generalizing world with
  | nil =>
      have sameFault : (world.limited limit).flushFault? = world.flushFault? := rfl
      simp only [interpret, sameFault]
      split <;> rfl
  | cons stmt others inductionHypothesis =>
      have calmHere : ∀ enough, ¬ (world.runStatement enough stmt).1.IsOverflow := by
        intro enough overflow
        obtain ⟨span, fails⟩ := overflow
        refine calm enough ⟨span, ?_⟩
        cases ran : world.runStatement enough stmt with
        | mk verdict reached =>
            rw [ran] at fails
            obtain rfl : verdict = .failed ⟨.stackOverflow, span⟩ := fails
            simp only [interpret, ran]
      have kept : (world.runStatement budget stmt).2.callLimit = world.callLimit :=
        congrArg Host.callLimit (runStatement_host budget world stmt)
      simp only [interpret, runStatement_limited le calmHere]
      cases ran : world.runStatement budget stmt with
      | mk verdict reached =>
          rw [ran] at kept
          cases verdict with
          | completed =>
              -- With more steps the statement still ends here, so the others stay calm.
              refine inductionHypothesis reached (kept ▸ le) fun enough overflow => ?_
              have ended : (reached.interpret enough others).1 ≠ .unfinished := by
                obtain ⟨span, fails⟩ := overflow
                rw [fails]
                simp
              have sameStmt : world.runStatement (max budget enough) stmt = (.completed, reached) := by
                rw [runStatement_of_le (Nat.le_max_left budget enough) (by simp [ran]), ran]
              refine calm (max budget enough) ?_
              simp only [interpret, sameStmt]
              rw [interpret_of_le (Nat.le_max_right budget enough) ended]
              exact overflow
          | failed fault => rfl
          | unfinished => rfl

end World

/-! ## Sessions -/

namespace Session

variable {session : Session} {request : Request} {low high budget enough : Nat}

/-- The session under this limit on calls. -/
def limited (limit : Nat) (session : Session) : Session :=
  { session with world := session.world.limited limit }

/-- With this budget the program of the request ends in a stack overflow. -/
def Overflows (budget : Nat) (request : Request) (session : Session) : Prop :=
  ∃ verdict, session.verdict? budget request = some verdict ∧ verdict.IsOverflow

@[simp] theorem resolver_limited (limit : Nat) (session : Session) :
    (session.limited limit).resolver = session.resolver := rfl

@[simp] theorem clearOutput_limited (limit : Nat) (session : Session) :
    (session.limited limit).world.clearOutput = session.world.clearOutput.limited limit := rfl

theorem verdict?_of_accepted {program : Program} (read : request.program? = some program)
    (accepted : (session.resolver.resolve program).errors = []) (budget : Nat) :
    session.verdict? budget request =
      some (World.interpret budget (session.resolver.resolve program).program.statements
        session.world.clearOutput).1 := by
  simp only [verdict?, read, accepted]

/-- What is not rejected has a program without binding errors. -/
theorem accepted_of_verdict? {verdict : Verdict}
    (runs : session.verdict? budget request = some verdict) :
    ∃ program, request.program? = some program ∧
      (session.resolver.resolve program).errors = [] ∧
      (World.interpret budget (session.resolver.resolve program).program.statements
        session.world.clearOutput).1 = verdict := by
  cases read : request.program? with
  | none =>
      simp only [verdict?, read] at runs
      cases runs
  | some program =>
      by_cases accepted : (session.resolver.resolve program).errors = []
      · rw [verdict?_of_accepted read accepted] at runs
        exact ⟨program, rfl, accepted, Option.some.inj runs⟩
      · simp only [verdict?, read] at runs
        cases runs

theorem answer_of_accepted (session : Session) {program : Program} (read : request.program? = some program)
    (accepted : (session.resolver.resolve program).errors = []) (budget : Nat) :
    session.answer budget request =
      (some (reportOn
        (World.interpret budget (session.resolver.resolve program).program.statements
          session.world.clearOutput).1
        (World.interpret budget (session.resolver.resolve program).program.statements
          session.world.clearOutput).2.output),
      ⟨(World.interpret budget (session.resolver.resolve program).program.statements
          session.world.clearOutput).2, (session.resolver.resolve program).resolver⟩) := by
  rw [answer_of_program? budget read, execute_of_accepted budget accepted]

/-- Where nothing runs, the limit is not looked at. -/
theorem answer_limited_of_rejected (limit : Nat)
    (rejected : ∀ program, request.program? = some program →
      (session.resolver.resolve program).errors ≠ []) (budget : Nat) :
    (session.limited limit).answer budget request =
      ((session.answer budget request).1, (session.answer budget request).2.limited limit) := by
  cases read : request.program? with
  | none =>
      obtain ⟨report, answers⟩ | ⟨name, arity, operation, rfl⟩ := answer_of_malformed budget read
      · rw [answers, answers]
      · rfl
  | some program =>
      have rejectedThere : ((session.limited limit).resolver.resolve program).errors ≠ [] :=
        rejected program read
      rw [answer_of_program? budget read, answer_of_program? budget read,
        execute_of_rejected budget (rejected program read), execute_of_rejected budget rejectedThere]
      rfl

/-- A request whose program never ends in a stack overflow is answered alike under a higher
limit. -/
theorem answer_limited_of_calm (le : session.world.callLimit ≤ high)
    (calm : ∀ enough, ¬ session.Overflows enough request) (budget : Nat) :
    (session.limited high).answer budget request =
      ((session.answer budget request).1, (session.answer budget request).2.limited high) := by
  by_cases runs : ∃ program, request.program? = some program ∧
      (session.resolver.resolve program).errors = []
  · obtain ⟨program, read, accepted⟩ := runs
    have calmProgram : ∀ enough, ¬ (World.interpret enough
        (session.resolver.resolve program).program.statements
        session.world.clearOutput).1.IsOverflow := fun enough overflow =>
      calm enough ⟨_, verdict?_of_accepted read accepted enough, overflow⟩
    rw [answer_of_accepted session read accepted,
      answer_of_accepted (session.limited high) read accepted, resolver_limited,
      clearOutput_limited, World.interpret_limited session.world.clearOutput le
        calmProgram]
    rfl
  · exact answer_limited_of_rejected high (fun program read accepted =>
      runs ⟨program, read, accepted⟩) budget

/-- If the program of a request ends under a higher limit, what it prints before its stack
overflow under the lower one is the beginning of what it prints there. -/
theorem output_answer_limited (le : session.world.callLimit ≤ high)
    (overflow : session.Overflows budget request) {report longer : Report}
    (answered : (session.answer budget request).1 = some report)
    (longerAnswered : ((session.limited high).answer enough request).1 = some longer)
    (ended : longer.status ≠ .unfinished) :
    report.output.toList <+: longer.output.toList := by
  obtain ⟨verdict, runs, span, rfl⟩ := overflow
  obtain ⟨program, read, accepted, overflows⟩ := accepted_of_verdict? runs
  rw [answer_of_accepted session read accepted] at answered
  rw [answer_of_accepted (session.limited high) read accepted, resolver_limited,
    clearOutput_limited] at longerAnswered
  obtain rfl := Option.some.inj answered
  obtain rfl := Option.some.inj longerAnswered
  have longerEnded : (World.interpret enough (session.resolver.resolve program).program.statements
      (session.world.clearOutput.limited high)).1 ≠ .unfinished := by
    intro unfinished
    rw [unfinished] at ended
    exact ended rfl
  -- Both runs have ended, so the larger budget does for both.
  rw [output_reportOn, output_reportOn,
    ← World.interpret_of_le (Nat.le_max_left budget enough) (by rw [overflows]; simp),
    ← World.interpret_of_le (Nat.le_max_right budget enough) longerEnded]
  exact World.output_prefix (World.printed_interpret_limited session.world.clearOutput
    le (max budget enough) (session.resolver.resolve program).program.statements)

/-- What has ended otherwise with some budget ends in a stack overflow with none. -/
theorem calm_of_ended {verdict : Verdict} (runs : session.verdict? enough request = some verdict)
    (ended : verdict ≠ .unfinished) (otherwise : ¬ verdict.IsOverflow) (budget : Nat) :
    ¬ session.Overflows budget request := by
  rintro ⟨overflowing, overflowRuns, span, rfl⟩
  obtain ⟨program, read, accepted, found⟩ := accepted_of_verdict? runs
  rw [verdict?_of_accepted read accepted] at overflowRuns
  have overflows := Option.some.inj overflowRuns
  have same := World.interpret_of_le (Nat.le_max_left budget enough) (by rw [overflows]; simp)
  rw [World.interpret_of_le (Nat.le_max_right budget enough) (by rwa [found])] at same
  rw [← same, found] at overflows
  exact otherwise ⟨span, overflows⟩

/-- The limit on calls is monotone. For every session and request, and a limit that is not
lower: if the request never ends in a stack overflow, then with every budget the report is
the same under the higher limit, and the sessions differ in their limit only; and if it ends
in a stack overflow, and ends under the higher limit at all, then its output is the beginning
of the output there. -/
theorem answer_limited (session : Session) (request : Request) {low high : Nat}
    (le : low ≤ high) :
    ((∀ budget, ¬ (session.limited low).Overflows budget request) →
      ∀ budget, (session.limited high).answer budget request =
        (((session.limited low).answer budget request).1,
          ((session.limited low).answer budget request).2.limited high)) ∧
    ∀ budget, (session.limited low).Overflows budget request →
      ∀ (enough : Nat) (report longer : Report),
        ((session.limited low).answer budget request).1 = some report →
        ((session.limited high).answer enough request).1 = some longer →
        longer.status ≠ .unfinished →
        report.output.toList <+: longer.output.toList := by
  have lower : (session.limited low).world.callLimit ≤ high := le
  have higher : (session.limited low).limited high = session.limited high := rfl
  refine ⟨fun calm budget => ?_, fun budget overflow enough report longer answered longerAnswered
    ended => ?_⟩
  · rw [← higher]
    exact answer_limited_of_calm lower calm budget
  · rw [← higher] at longerAnswered
    exact output_answer_limited lower overflow answered longerAnswered ended

/-- A function that calls itself once, and so needs room for two calls. -/
def callingTwice : Request :=
  .run "fun f(again) \x7b print again; if (again) f(false); \x7d f(true); print nil;"

/-- With room for one call the second one does not start, and what was printed before it is
the beginning of what is printed with room for two; more room than that changes nothing. -/
theorem answer_limited_callingTwice :
    let session := new 0 .working (.still 0)
    (((session.limited 1).answer 100 callingTwice).1.map Report.output = some "true\n" ∧
      ((session.limited 2).answer 100 callingTwice).1.map Report.output =
        some "true\nfalse\nnil\n" ∧
      "true\n".toList <+: "true\nfalse\nnil\n".toList) ∧
    ∀ budget, ((session.limited 3).answer budget callingTwice).1 =
      ((session.limited 2).answer budget callingTwice).1 := by
  intro session
  have short : ((session.limited 1).answer 100 callingTwice).1 =
      some ⟨.fatal, [Fault.diagnostic ⟨.stackOverflow, ⟨1, 47, 1⟩⟩], "true\n"⟩ := by
    decide +kernel
  have long : ((session.limited 2).answer 100 callingTwice).1 =
      some ⟨.ok, [], "true\nfalse\nnil\n"⟩ := by
    decide +kernel
  have overflow : (session.limited 1).Overflows 100 callingTwice :=
    ⟨.failed ⟨.stackOverflow, ⟨1, 47, 1⟩⟩, by decide +kernel, _, rfl⟩
  have completed : (session.limited 2).verdict? 100 callingTwice = some .completed := by
    decide +kernel
  have calm := calm_of_ended completed (by simp) fun ⟨span, fails⟩ => by cases fails
  refine ⟨⟨by rw [short]; rfl, by rw [long]; rfl, ?_⟩, fun budget => ?_⟩
  · exact (answer_limited session callingTwice (by decide : 1 ≤ 2)).2 100 overflow 100 _ _ short long
      (by decide)
  · rw [(answer_limited session callingTwice (by decide : 2 ≤ 3)).1 calm budget]

end Session

end Lox
