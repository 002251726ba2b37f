import Lox.Proofs.Places.Binding
import Lox.Proofs.Places.Grammar
import Lox.Proofs.Places.Run
import Lox.Proofs.Rejection
import Lox.Proofs.Reports

/-!
Contract: two sources one after the other, or both at once.

A source that ends well may be joined with the next one, a line feed between them. The
joined source does what the two do: it is scanned, parsed and bound as the first and then,
some lines further down, as the second, and it runs as the one and then the other. All
that can be seen of the difference are the lines of faults in the text of the second.

Main statement: `Session.run_joined`.

Owns: sources and programs in two parts, and where reports come from. Does not own: each
stage on its own.
-/

set_option autoImplicit false

namespace Lox

/-- A native that is provided does not look at places, and the functions it holds were
written up to the line. -/
def Request.Placeless (line : Nat) : Request → Prop
  | .provide _ _ operation => operation.Placeless line
  | _ => True

/-- The diagnostic at another place. -/
def Diagnostic.moved (move : Span → Span) (diagnostic : Diagnostic) : Diagnostic :=
  { diagnostic with span := move diagnostic.span }

/-- The value without places. -/
def Value.shape (value : Value) : Value := value.moved fun _ => .nowhere

/-- The world without places and without what was printed. -/
def World.shape (world : World) : World := (world.moved (fun _ => .nowhere) #[]).clearOutput

/-! ## Programs in two parts -/

/-- If nothing is wrong in the first source, the next one is read from where it stands. -/
theorem ParsedSource.of_joined {first second : String} {program next : Program}
    (readFirst : (ParsedSource.of first).program = some program)
    (readSecond : (ParsedSource.of second).program = some next) :
    (ParsedSource.of (first ++ "\n" ++ second)).program =
      some ⟨program.statements ++ (next.moved (Span.lowered (linesOf first))).statements⟩ := by
  obtain ⟨cleanFirst, parsedFirst⟩ := program_of_eq_some_iff.mp readFirst
  obtain ⟨cleanSecond, parsedSecond⟩ := program_of_eq_some_iff.mp readSecond
  obtain ⟨front, mark, tokens, ends, unmarked, joins⟩ := Scan.of_joined cleanFirst
  obtain ⟨back, later, tokensSecond, endsLater, unmarkedSecond, _⟩ := Scan.of_joined cleanSecond
  rw [tokens] at parsedFirst
  rw [tokensSecond] at parsedSecond
  have parsed := Program.ofTokens_append (Span.lowered (linesOf first)) unmarked ends
    unmarkedSecond endsLater parsedFirst parsedSecond
  rw [← tokensSecond] at parsed
  simp only [ParsedSource.of, joins second cleanSecond, parsed]
  rfl

namespace World

/-- When the first part is done, the second begins in the world that it leaves. -/
theorem interpret_append (budget : Nat) {first : List Stmt} {world : World}
    (completed : (world.interpret budget first).1 = .completed) (second : List Stmt) :
    world.interpret budget (first ++ second) =
      (world.interpret budget first).2.interpret budget second := by
  induction first generalizing world with
  | nil =>
      simp only [interpret] at completed ⊢
      split at completed
      · cases completed
      · rfl
  | cons stmt rest inductionHypothesis =>
      simp only [List.cons_append, interpret] at completed ⊢
      cases ran : world.runStatement budget stmt with
      | mk verdict reached =>
          simp only [ran] at completed ⊢
          cases verdict with
          | completed => exact inductionHypothesis completed
          | failed fault => cases completed
          | unfinished => cases completed

theorem output_moved (move : Span → Span) (before : Array String) (world : World) :
    (world.moved move before).output =
      String.join (before.toList.map (· ++ "\n")) ++ world.output := by
  simp [output, moved, String.join_append]

theorem shape_moved (move : Span → Span) (before : Array String) (world : World) :
    (world.moved move before).shape = world.shape := by
  simp only [shape, moved_moved]
  rfl

end World

/-! ## Sessions whose natives do not look at places -/

namespace Session

variable {session : Session} {line : Nat}

/-- The natives of the session do not look at places, and its output works. -/
structure Placeless (line : Nat) (session : Session) : Prop where
  natives : session.world.Placeless line
  outlet : session.world.outlet = .working

theorem Placeless.of_host {after : Session} (placeless : session.Placeless line)
    (same : after.world.host = session.world.host) : after.Placeless line where
  natives := placeless.natives.of_host same
  outlet := (congrArg Host.outlet same).trans placeless.outlet

theorem execute_host (budget : Nat) (program : Program) :
    (session.execute budget program).2.world.host = session.world.host := by
  by_cases accepted : (session.resolver.resolve program).errors = []
  · rw [execute_of_accepted budget accepted]
    exact World.interpret_host budget _ session.world.clearOutput
  · rw [execute_of_rejected budget accepted]

theorem placeless_new (line callLimit : Nat) (clock : Clock) :
    (new callLimit .working clock).Placeless line where
  natives := fun move _ => World.follows_initial move callLimit .working clock
  outlet := rfl

theorem Placeless.answer (placeless : session.Placeless line) (budget : Nat) {request : Request}
    (provides : request.Placeless line) : (session.answer budget request).2.Placeless line := by
  cases read : request.program? with
  | none =>
      obtain ⟨report, same⟩ | ⟨name, arity, operation, rfl⟩ := answer_of_malformed budget read
      · rw [same]
        exact placeless
      · refine ⟨fun move beyond other member => ?_, placeless.outlet⟩
        obtain member | rfl := Array.mem_push.mp member
        · exact placeless.natives move beyond other member
        · exact provides move beyond
  | some program =>
      rw [answer_of_program? budget read]
      exact placeless.of_host (execute_host budget program)

theorem Placeless.serve (placeless : session.Placeless line) (budget : Nat) {requests : List Request}
    (provide : ∀ request ∈ requests, request.Placeless line) :
    (serve (Session.answer budget) requests session).2.Placeless line := by
  induction requests generalizing session with
  | nil => exact placeless
  | cons request rest inductionHypothesis =>
      have provideLater : ∀ other ∈ rest, other.Placeless line :=
        fun other among => provide other (List.mem_cons_of_mem _ among)
      exact inductionHypothesis (placeless.answer budget (provide request List.mem_cons_self))
        provideLater

/-! ## Where reports come from -/

/-- What is reported of the program shows in its own text: there it is found, wherever the
program stands. -/
def ReportsText (budget : Nat) (program : Program) (session : Session) : Prop :=
  ∀ move : Span → Span,
    (session.execute budget (program.moved move)).1.diagnostics =
      (session.execute budget program).1.diagnostics.map (Diagnostic.moved move)

/-- What is reported of the program shows in a text from before: it is found in the same
place, wherever the program stands. -/
def ReportsEarlier (budget : Nat) (program : Program) (session : Session) : Prop :=
  ∀ move : Span → Span,
    (session.execute budget (program.moved move)).1.diagnostics =
      (session.execute budget program).1.diagnostics

/-- What is reported comes from one place only. -/
theorem ReportsText.not_reportsEarlier {budget : Nat} {program : Program}
    (text : session.ReportsText budget program)
    (reported : (session.execute budget program).1.diagnostics ≠ []) :
    ¬ session.ReportsEarlier budget program := by
  intro earlier
  have same := (text (Span.lowered 1)).symm.trans (earlier (Span.lowered 1))
  cases diagnostics : (session.execute budget program).1.diagnostics with
  | nil => exact reported diagnostics
  | cons first rest =>
      rw [diagnostics, List.map_cons] at same
      have lines := congrArg (fun found => found.span.line) (List.cons.inj same).1
      exact absurd lines (Nat.succ_ne_self first.span.line)

theorem status_reportOn_moved (move other : Span → Span) (verdict : Verdict)
    (output more : String) :
    (reportOn (verdict.moved move) output).status = (reportOn (verdict.moved other) more).status := by
  cases verdict <;> rfl

/-- The diagnostics of a verdict follow where the new is moved, or stay. -/
theorem diagnostics_follow_or_stay (line : Nat) (verdict : Verdict) :
    (∀ (move : Span → Span) (output more : String),
      (reportOn (verdict.moved (Span.told line move)) output).diagnostics =
        (reportOn (verdict.moved (Span.told line id)) more).diagnostics.map
          (Diagnostic.moved move)) ∨
    ∀ (move : Span → Span) (output more : String),
      (reportOn (verdict.moved (Span.told line move)) output).diagnostics =
        (reportOn (verdict.moved (Span.told line id)) more).diagnostics := by
  cases verdict with
  | completed => exact .inr fun _ _ _ => rfl
  | unfinished => exact .inr fun _ _ _ => rfl
  | failed fault =>
      refine (Span.told_follows_or_stays line fault.span).imp (fun follows => ?_) fun stays => ?_
      · intro move output more
        simp only [Verdict.moved, reportOn, Fault.moved, Fault.diagnostic, follows move,
          List.map_cons, List.map_nil]
        rfl
      · intro move output more
        simp only [Verdict.moved, reportOn, Fault.moved, Fault.diagnostic, stays move]

/-- One run stands for those of the program wherever it is moved: alone, or behind another
program that completes first. -/
theorem execute_told (budget : Nat) {program next : Program} (placeless : session.Placeless line)
    (accepted : (session.resolver.resolve program).errors = [])
    (completed : (World.interpret budget (session.resolver.resolve program).program.statements
      session.world.clearOutput).1 = .completed)
    (acceptedNext :
      ((session.execute budget program).2.resolver.resolve next).errors = []) :
    let after := (session.execute budget program).2
    ∃ (verdict : Verdict) (reached : World),
      (∀ move : Span → Span, after.execute budget (next.moved move) =
        (reportOn (verdict.moved (Span.told line move)) reached.output,
          ⟨reached.moved (Span.told line move) #[], (after.resolver.resolve next).resolver⟩)) ∧
      ∀ move : Span → Span,
        session.execute budget ⟨program.statements ++ (next.moved move).statements⟩ =
          (reportOn (verdict.moved (Span.told line move)) (after.world.output ++ reached.output),
            ⟨reached.moved (Span.told line move) after.world.printed,
              (after.resolver.resolve next).resolver⟩) := by
  intro after
  have ended : after.world = (World.interpret budget
      (session.resolver.resolve program).program.statements session.world.clearOutput).2 :=
    congrArg (fun ran => ran.2.world) (execute_of_accepted budget accepted)
  have bound : after.resolver = (session.resolver.resolve program).resolver :=
    resolver_execute budget program
  have clean : after.resolver.errors = [] := by rw [bound]; rfl
  have resolves (move : Span → Span) : after.resolver.resolve (next.moved move) =
      ⟨(after.resolver.resolve next).program.moved move, [],
        (after.resolver.resolve next).resolver⟩ := by
    rw [Resolver.resolve_moved move clean, acceptedNext]
    rfl
  have placelessAfter : after.Placeless line := placeless.of_host (execute_host budget program)
  have placelessRun : after.world.clearOutput.Placeless line := placelessAfter.natives
  obtain ⟨verdict, reached, told⟩ := World.interpret_told line budget placelessRun
    (after.resolver.resolve next).program.statements
  refine ⟨verdict, reached, fun move => ?_, fun move => ?_⟩
  · have ran := told move #[]
    rw [World.moved_id] at ran
    have acceptedMoved : (after.resolver.resolve (next.moved move)).errors = [] := by
      rw [resolves move]
    rw [execute_of_accepted budget acceptedMoved, resolves move]
    simp only [Program.moved, ran, World.output_moved]
    simp
  · have ran := told move after.world.printed
    rw [World.moved_clearOutput] at ran
    have joined : session.resolver.resolve ⟨program.statements ++ (next.moved move).statements⟩ =
        ⟨⟨(session.resolver.resolve program).program.statements ++
            movedStmts move (after.resolver.resolve next).program.statements⟩, [],
          (after.resolver.resolve next).resolver⟩ := by
      rw [Resolver.resolve_append accepted, ← bound]
      exact congrArg (fun later => Resolution.mk
        ⟨(session.resolver.resolve program).program.statements ++ later.program.statements⟩
        later.errors later.resolver) (resolves move)
    have acceptedJoined :
        (session.resolver.resolve ⟨program.statements ++ (next.moved move).statements⟩).errors =
          [] := by
      rw [joined]
    rw [execute_of_accepted budget acceptedJoined, joined]
    simp only [World.interpret_append budget completed, ← ended, ran, World.output_moved]
    rfl

/-! ## Sources one after the other -/

theorem run_of_program {source : String} {program : Program} (budget : Nat)
    (read : (ParsedSource.of source).program = some program) :
    session.run budget source = session.execute budget program := by
  simp only [run, read]

/-- What is not rejected has a program whose names are bound. -/
theorem accepted_of_run {budget : Nat} {source : String}
    (ran : (session.run budget source).1.status ≠ .staticError) :
    ∃ program, (ParsedSource.of source).program = some program ∧
      (session.resolver.resolve program).errors = [] := by
  cases read : (ParsedSource.of source).program with
  | none =>
      simp only [run, read] at ran
      exact absurd rfl ran
  | some program =>
      refine ⟨program, rfl, Classical.byContradiction fun rejected => ran ?_⟩
      rw [run_of_program budget read, execute_of_rejected budget rejected]

theorem completed_of_status {verdict : Verdict} {output : String}
    (ok : (reportOn verdict output).status = .ok) : verdict = .completed := by
  cases verdict with
  | completed => rfl
  | failed fault =>
      simp only [reportOn] at ok
      split at ok <;> cases ok
  | unfinished => cases ok

/-- Two sources, of which the first ends well and the second is not rejected, may be run at
once, a line feed between them. The status is that of the second and the output that of
both; what is reported is reported in the same place, or, if it shows in the text of the
second, so many lines further down. The globals and all else that is left are the same but
for places. The natives of the session answer by what their arguments are; some may hold
functions of their own, all written up to some line. -/
theorem run_joined (callLimit : Nat) (clock : Clock) (budget : Nat) {requests : List Request}
    (placeless : ∀ request ∈ requests, request.Placeless line) (first second : String) :
    let session := (serve (answer budget) requests (new callLimit .working clock)).2
    let one := session.run budget first
    let two := one.2.run budget second
    let joined := session.run budget (first ++ "\n" ++ second)
    one.1.status = .ok → two.1.status ≠ .staticError →
      joined.1.status = two.1.status ∧
      joined.1.output = one.1.output ++ two.1.output ∧
      (∃ program, (ParsedSource.of second).program = some program ∧
        (one.2.ReportsText budget program ∧
            joined.1.diagnostics =
              two.1.diagnostics.map (Diagnostic.moved (Span.lowered (linesOf first))) ∨
          one.2.ReportsEarlier budget program ∧ joined.1.diagnostics = two.1.diagnostics)) ∧
      joined.2.world.globals.names = two.2.world.globals.names ∧
      (∀ name, (joined.2.world.globals.find? name).map Value.shape =
        (two.2.world.globals.find? name).map Value.shape) ∧
      joined.2.world.shape = two.2.world.shape ∧
      joined.2.resolver = two.2.resolver := by
  intro session one two joined ok ran
  have placelessHere : session.Placeless line :=
    (placeless_new line callLimit clock).serve budget placeless
  obtain ⟨program, read, accepted⟩ : ∃ program, (ParsedSource.of first).program = some program ∧
      (session.resolver.resolve program).errors = [] :=
    accepted_of_run (by rw [ok]; exact fun same => nomatch same)
  have runsFirst : one = session.execute budget program := run_of_program budget read
  have ranFirst := execute_of_accepted budget accepted
  rw [← runsFirst] at ranFirst
  have completed := completed_of_status (ranFirst ▸ ok)
  obtain ⟨next, readNext, acceptedNext⟩ := accepted_of_run ran
  have runsSecond : two = one.2.execute budget next := run_of_program budget readNext
  rw [runsFirst] at acceptedNext
  obtain ⟨verdict, reached, apart, behind⟩ :=
    execute_told budget placelessHere accepted completed acceptedNext
  rw [← runsFirst] at apart behind
  have alone := apart id
  rw [Program.moved_id, ← runsSecond] at alone
  have together : joined = _ :=
    (run_of_program budget (ParsedSource.of_joined read readNext)).trans
      (behind (Span.lowered (linesOf first)))
  have shape : joined.2.world.shape = two.2.world.shape := by
    rw [together, alone, World.shape_moved, World.shape_moved]
  have globals : joined.2.world.globals.map Value.shape = two.2.world.globals.map Value.shape :=
    congrArg World.globals shape
  refine ⟨?_, ?_, ⟨next, readNext, ?_⟩, ?_, ?_, shape, ?_⟩
  · rw [together, alone]
    exact status_reportOn_moved _ _ verdict _ _
  · rw [together, alone, output_reportOn, output_reportOn, ranFirst, output_reportOn]
  · -- Whatever is reported here is reported wherever the program is moved, likewise.
    unfold ReportsText ReportsEarlier
    rw [← runsSecond, together, alone]
    refine (diagnostics_follow_or_stay line verdict).imp (fun follows => ⟨fun move => ?_, ?_⟩)
      fun stays => ⟨fun move => ?_, ?_⟩
    · rw [apart move]
      exact follows move _ _
    · exact follows (Span.lowered (linesOf first)) _ _
    · rw [apart move]
      exact stays move _ _
    · exact stays (Span.lowered (linesOf first)) _ _
  · have names := congrArg Table.names globals
    rwa [Table.names_map, Table.names_map] at names
  · intro name
    have found := congrArg (Table.find? · name) globals
    simpa only [Table.find?_map] using found
  · rw [together, alone]

/-- A function that does nothing, written in the first line of all. -/
def idle : Function := ⟨0, ⟨⟨"idle", ⟨1, 5, 4⟩⟩, [], [], false⟩, none, false⟩

/-- Hands back what it is given, and for want of that the function that does nothing. -/
def orIdle : List Value → Value
  | .nil :: _ => .function idle
  | arguments => arguments.headD .nil

theorem orIdle_moved {move : Span → Span} (beyond : Span.MovesBeyond 1 move)
    (arguments : List Value) :
    orIdle (arguments.map (Value.moved move)) = (orIdle arguments).moved move := by
  have stays : idle.moved move = idle := by
    simp only [idle, Function.moved, movedFunction, Name.moved, beyond ⟨1, 5, 4⟩ (by decide)]
    rfl
  cases arguments with
  | nil => rfl
  | cons first rest =>
      cases first with
      | nil => exact congrArg Value.function stays.symm
      | _ => rfl

/-- Two functions, and a native that holds the first. -/
def preparations : List Request :=
  [.run "fun idle() \x7b\x7d\nfun twice(f) \x7b f(); f(); \x7d",
    .provide "orIdle" 1 (.host fun arguments => .ok (orIdle arguments))]

/-- Lines that end well. -/
def wellLines : String := "var a = true;\nprint a;"

/-- Lines that use those before, and end in a fault of their own. -/
def faultyLines : String := "twice(orIdle(nil));\nprint orIdle(a);\nnil();"

/-- The session behind them. -/
def prepared : Session := (serve (answer 200) preparations (new 2048 .working (.still 0))).2

/-- The fault of the second part is found two lines further down. -/
theorem run_joined_ownFault :
    (prepared.run 200 wellLines).1.status = .ok ∧
      ((prepared.run 200 wellLines).2.run 200 faultyLines).1.status = .runtimeError ∧
      (prepared.run 200 (wellLines ++ "\n" ++ faultyLines)).1.diagnostics =
        ((prepared.run 200 wellLines).2.run 200 faultyLines).1.diagnostics.map
          (Diagnostic.moved (Span.lowered 2)) ∧
      (prepared.run 200 (wellLines ++ "\n" ++ faultyLines)).2.world.shape =
        ((prepared.run 200 wellLines).2.run 200 faultyLines).2.world.shape := by
  have placeless : ∀ request ∈ preparations, request.Placeless 1 := by
    intro request member
    obtain rfl | member := List.mem_cons.mp member
    · trivial
    · obtain rfl := List.mem_singleton.mp member
      exact fun move beyond _ arguments => congrArg Except.ok (orIdle_moved beyond arguments)
  have ok : (prepared.run 200 wellLines).1.status = .ok := by decide +kernel
  have faulty : ((prepared.run 200 wellLines).2.run 200 faultyLines).1.status = .runtimeError := by
    decide +kernel
  have ran : ((prepared.run 200 wellLines).2.run 200 faultyLines).1.status ≠ .staticError := by
    rw [faulty]
    decide
  have lines : linesOf wellLines = 2 := by decide +kernel
  have elsewhere : ((prepared.run 200 wellLines).2.execute 200
      ((((ParsedSource.of faultyLines).program).getD ⟨[]⟩).moved fun _ => .nowhere)).1.diagnostics ≠
        ((prepared.run 200 wellLines).2.execute 200
          (((ParsedSource.of faultyLines).program).getD ⟨[]⟩)).1.diagnostics := by
    decide +kernel
  have joined := run_joined 2048 (.still 0) 200 placeless wellLines faultyLines
  rw [← prepared] at joined
  obtain ⟨_, _, ⟨program, read, reports⟩, _, _, shape, _⟩ := joined ok ran
  refine ⟨ok, faulty, ?_, shape⟩
  obtain ⟨_, lowered⟩ | ⟨earlier, _⟩ := reports
  · rw [lines] at lowered
    exact lowered
  · have same : program = ((ParsedSource.of faultyLines).program).getD ⟨[]⟩ := by
      rw [read, Option.getD_some]
    rw [same] at earlier
    exact absurd (earlier fun _ => .nowhere) elsewhere

end Session

end Lox
