import Mathlib.Data.List.Forall2
import Lox.Proofs.Binding.Cleared
import Lox.Proofs.Lexical.Session
import Lox.Proofs.Lexical.Step

/-!
Contract: slots mean what names mean.

Main statement: `Session.serve_shows`. Whatever a host asks, a session answers as the
reference session does that finds variables by name and has no slots: the same
sources are rejected with the same complaints, the others end in the same way and
print the same, and the same globals have the same values. The text of a fault differs
only where a variable is used whose value is not there yet; of all faults of the
interpreter itself it is the only one that can come up while output works.

Owns: the refinement of programs and sessions. Does not own: steps.
-/

set_option autoImplicit false

namespace Lox.Lexical

open Binding

/-- With this outlet, the two programs end in the same way. -/
def Verdict.Shows (outlet : Outlet) : Verdict → Lox.Verdict → Prop
  | .completed, .completed => True
  | .failed mishap, .failed fault => mishap.Shows outlet fault
  | .unfinished, .unfinished => True
  | _, _ => False

/-- With this outlet, the report says the same. -/
def Report.Shows (outlet : Outlet) : Report → Lox.Report → Prop
  | .rejected diagnostics, report => report = ⟨.staticError, diagnostics, ""⟩
  | .ran verdict output, report =>
      ∃ shown, verdict.Shows outlet shown ∧ report = Lox.Session.reportOn shown output

/-! ## Programs -/

namespace World

variable {outlet : Outlet} {world : World}

/-- The world is at top level and may run a statement. -/
structure Idle (world : World) (outlet : Outlet) : Prop where
  sound : world.Sound outlet
  scope : world.scope = none

theorem Idle.ready (idle : world.Idle outlet) : world.Ready outlet where
  sound := idle.sound
  inScope := by simp [idle.scope]

theorem Idle.setting (idle : world.Idle outlet) : world.setting = ⟨none, none, []⟩ := by
  simp [World.setting, settingAt, pendingAt, placeAt, viewFrom, idle.scope]

theorem Sound.atTopLevel (sound : world.Sound outlet) : world.atTopLevel.Idle outlet where
  sound := sound.of_grows (.of_same rfl rfl rfl rfl) rfl sound.globals sound.fields rfl
  scope := rfl

theorem Idle.clearOutput (idle : world.Idle outlet) : world.clearOutput.Idle outlet where
  sound :=
    idle.sound.of_grows (.of_same rfl rfl rfl rfl) rfl idle.sound.globals idle.sound.fields rfl
  scope := idle.scope

/-- A statement ends in the same way, and completed it leaves the world at top level. -/
theorem Idle.runStatement (idle : world.Idle outlet) {stmt : Stmt} (bound : stmt.Bound [])
    (budget : Nat) :
    (world.runStatement budget stmt).1.Shows outlet (world.erase.runStatement budget stmt).1 ∧
      (world.runStatement budget stmt).2.Sound outlet ∧
      (world.erase.runStatement budget stmt).2 = (world.runStatement budget stmt).2.erase ∧
      ((world.runStatement budget stmt).1 = .completed →
        (world.runStatement budget stmt).2.scope = none) := by
  have noneWaits : world.setting.pending = none := by rw [idle.setting]
  have boundHere : stmt.Bound world.setting.context := by
    rw [idle.setting]
    exact bound
  have begins : Mirrors outlet (.execute world stmt .empty) (.execute world.erase stmt .empty) :=
    .execute idle.ready noneWaits boundHere idle.scope
  have ends := begins.run budget
  unfold World.runStatement Lox.World.runStatement
  generalize Machine.run budget (.execute world stmt .empty) = machine at ends
  generalize Lox.Machine.run budget (.execute world.erase stmt .empty) = shadow at ends
  cases ends with
  | evaluate ready _ _ => exact ⟨trivial, ready.sound, rfl, fun completed => nomatch completed⟩
  | execute ready _ _ _ => exact ⟨trivial, ready.sound, rfl, fun completed => nomatch completed⟩
  | answer ready _ _ => exact ⟨trivial, ready.sound, rfl, fun completed => nomatch completed⟩
  | @finish _ _ stack ready _ fits =>
      cases stack with
      | empty => exact ⟨trivial, ready.sound, rfl, fun _ => fits⟩
      | push _ _ => exact ⟨trivial, ready.sound, rfl, fun completed => nomatch completed⟩
  | @raise _ _ _ _ stack sound shows =>
      cases stack with
      | empty => exact ⟨shows, sound, rfl, fun completed => nomatch completed⟩
      | push _ _ => exact ⟨trivial, sound, rfl, fun completed => nomatch completed⟩

/-- At top level a declaration opens no scope. -/
theorem contextAfter_top (stmt : Stmt) : stmt.contextAfter [] = [] := by
  unfold Stmt.contextAfter
  cases stmt.declared? <;> rfl

/-- A program ends in the same way. -/
theorem Idle.interpret (idle : world.Idle outlet) {stmts : List Stmt} (bound : boundStmts [] stmts)
    (budget : Nat) :
    (world.interpret budget stmts).1.Shows outlet (world.erase.interpret budget stmts).1 ∧
      (world.interpret budget stmts).2.Idle outlet ∧
      (world.erase.interpret budget stmts).2 = (world.interpret budget stmts).2.erase := by
  induction stmts generalizing world with
  | nil =>
      simp only [World.interpret, Lox.World.interpret, flushMishap?, Lox.World.flushFault?]
      have sameSink : world.erase.sink = world.sink := rfl
      rw [sameSink]
      cases fails : world.sink.flushFailure with
      | none => exact ⟨trivial, idle, rfl⟩
      | some reason =>
          refine ⟨⟨⟨world.written, .inr ?_⟩, rfl⟩, idle, rfl⟩
          rw [← idle.sound.outlet]
          exact fails
  | cons stmt rest inductionHypothesis =>
      obtain ⟨shows, sound, sameWorld, top⟩ := idle.runStatement bound.1 budget
      have boundRest : boundStmts [] rest := contextAfter_top stmt ▸ bound.2
      simp only [World.interpret, Lox.World.interpret]
      generalize world.runStatement budget stmt = outcome at shows sound sameWorld top ⊢
      generalize world.erase.runStatement budget stmt = outcome' at shows sameWorld ⊢
      obtain ⟨verdict, reached⟩ := outcome
      obtain ⟨shown, shadow⟩ := outcome'
      obtain rfl : shadow = reached.erase := sameWorld
      cases verdict with
      | completed =>
          cases shown with
          | completed => exact inductionHypothesis ⟨sound, top rfl⟩ boundRest
          | failed fault => exact shows.elim
          | unfinished => exact shows.elim
      | failed mishap =>
          cases shown with
          | completed => exact shows.elim
          | failed fault => exact ⟨shows, sound.atTopLevel, rfl⟩
          | unfinished => exact shows.elim
      | unfinished =>
          cases shown with
          | completed => exact shows.elim
          | failed fault => exact shows.elim
          | unfinished => exact ⟨trivial, sound.atTopLevel, rfl⟩

theorem Idle.defineNative (idle : world.Idle outlet) (name : String) (arity : Nat)
    {operation : Operation} (answers : operation.AnswersFrom world.Knows) :
    (world.defineNative name arity operation).Idle outlet where
  sound :=
    have grows : Grows world (world.defineNative name arity operation) :=
      { homes := fun _ _ found => found
        activations := fun _ activation found => ⟨activation, found, rfl, List.prefix_rfl⟩
        natives := by simp [World.defineNative]
        outlet := rfl }
    { activations := fun ref activation found =>
        (idle.sound.activations ref activation found).mono grows
      globals := by
        intro entry member
        obtain rfl | before := Table.mem_insert member
        · simp [World.defineNative, Knows]
        · exact (idle.sound.globals entry before).mono grows
      fields := fun object fields found entry member =>
        (idle.sound.fields object fields found entry member).mono grows
      natives := by
        intro number found there
        simp only [World.defineNative, Array.getElem?_push] at there
        split at there
        · obtain rfl := Option.some.inj there
          exact answers.mono fun _ known => known.mono grows
        · exact (idle.sound.natives number found there).mono fun _ known => known.mono grows
      outlet := idle.sound.outlet }
  scope := idle.scope

theorem idle_initial (callLimit : Nat) (outlet : Outlet) (clock : Clock) :
    (World.initial callLimit outlet clock).Idle outlet := by
  refine Idle.defineNative ⟨⟨?_, ?_, ?_, ?_, rfl⟩, rfl⟩ "clock" 0
    (Operation.answersFrom_clock _ clock)
  · simp
  · simp [Table.empty]
  · simp
  · simp

/-- What stands in a variable or in a field is known. -/
theorem Sound.knows_of_contains (sound : world.Sound outlet) {value : Value}
    (contains : world.erase.Contains value) : world.Knows value := by
  cases contains with
  | global found => exact sound.globals _ (Table.mem_of_find? found)
  | slot found =>
      obtain ⟨environment, present, there⟩ := Option.bind_eq_some_iff.mp found
      rw [getElem?_erase] at present
      obtain ⟨activation, here, rfl⟩ := Option.map_eq_some_iff.mp present
      obtain ⟨filled, pending, cells, known, _⟩ := (sound.activations _ activation here).cells
      simp only [Activation.erase, cells, valuesIn_laidOut, List.getElem?_toArray] at there
      obtain ⟨entry, member, rfl⟩ := List.mem_map.mp (List.mem_of_getElem? there)
      exact (known entry member).value
  | field found =>
      obtain ⟨fields, present, there⟩ := Option.bind_eq_some_iff.mp found
      exact sound.fields _ fields present _ (Table.mem_of_find? there)

theorem erase_initial (callLimit : Nat) (outlet : Outlet) (clock : Clock) :
    (World.initial callLimit outlet clock).erase = Lox.World.initial callLimit outlet clock := by
  simp [World.initial, Lox.World.initial, World.defineNative, Lox.World.defineNative, World.erase,
    Forest.empty]

end World

/-! ## Sessions -/

namespace Session

/-- To the tree of a request the pass over names adds addresses, and no more. A reference
session runs what the pass makes of it and looks at no address: it runs what was read. -/
theorem cleared_of_program? (resolver : Resolver) {request : Request} {program : Program}
    (read : request.program? = some program) :
    (resolver.resolve program).program.cleared = program :=
  cleared_bound resolver (Request.unbound_of_program? read)

/-- The two sessions differ in the names alone and are between two programs. -/
structure Shadowed (outlet : Outlet) (session : Session) (shadow : Lox.Session) : Prop where
  idle : session.world.Idle outlet
  world : shadow.world = session.world.erase
  resolver : shadow.resolver = session.resolver
  atTop : AtTop session.resolver

theorem shadowed_new (callLimit : Nat) (outlet : Outlet) (clock : Clock) :
    Shadowed outlet (new callLimit outlet clock) (Lox.Session.new callLimit outlet clock) where
  idle := World.idle_initial callLimit outlet clock
  world := (World.erase_initial callLimit outlet clock).symm
  resolver := rfl
  atTop := atTop_foldl_defineGlobal _ (atTop_withGlobals .empty)

variable {outlet : Outlet} {session : Session} {shadow : Lox.Session}

/-- An accepted program ends in the same way. -/
theorem Shadowed.interpret (shadowed : Shadowed outlet session shadow) {program : Program}
    (unbound : unboundStmts program.statements)
    (accepted : (session.resolver.resolve program).errors = []) (budget : Nat) :
    (World.interpret budget (session.resolver.resolve program).program.statements
        session.world.clearOutput).1.Shows outlet
      (Lox.World.interpret budget (session.resolver.resolve program).program.statements
        shadow.world.clearOutput).1 := by
  have bound := shadowed.atTop.bound unbound accepted
  have erased : shadow.world.clearOutput = session.world.clearOutput.erase := by
    rw [shadowed.world]
    rfl
  rw [erased]
  exact (shadowed.idle.clearOutput.interpret bound budget).1

/-- A program that is read from a source is checked and run alike. -/
theorem Shadowed.execute (shadowed : Shadowed outlet session shadow) {program : Program}
    (unbound : unboundStmts program.statements) (budget : Nat) :
    (session.execute budget program).1.Shows outlet (shadow.execute budget program).1 ∧
      Shadowed outlet (session.execute budget program).2 (shadow.execute budget program).2 := by
  obtain ⟨idle, sameWorld, sameResolver, atTop⟩ := shadowed
  have after := atTop.resolve program
  simp only [Session.execute, Lox.Session.execute, sameResolver, sameWorld]
  cases errors : (session.resolver.resolve program).errors with
  | nil =>
      have bound := atTop.bound unbound errors
      have erased : session.world.erase.clearOutput = session.world.clearOutput.erase := rfl
      obtain ⟨shows, idleAfter, worldAfter⟩ := idle.clearOutput.interpret bound budget
      simp only [erased]
      refine ⟨⟨_, shows, ?_⟩, idleAfter, worldAfter, rfl, after⟩
      rw [worldAfter]
      rfl
  | cons first others => exact ⟨rfl, idle, rfl, rfl, after⟩

theorem Shadowed.run (shadowed : Shadowed outlet session shadow) (budget : Nat) (source : String) :
    (session.run budget source).1.Shows outlet (shadow.run budget source).1 ∧
      Shadowed outlet (session.run budget source).2 (shadow.run budget source).2 := by
  simp only [Session.run, Lox.Session.run]
  cases read : (ParsedSource.of source).program with
  | some program => exact shadowed.execute (ParsedSource.unbound read) budget
  | none => exact ⟨rfl, shadowed⟩

theorem Shadowed.runEntry (shadowed : Shadowed outlet session shadow) (budget : Nat)
    (source : String) :
    (session.runEntry budget source).1.Shows outlet (shadow.runEntry budget source).1 ∧
      Shadowed outlet (session.runEntry budget source).2 (shadow.runEntry budget source).2 := by
  simp only [Session.runEntry, Lox.Session.runEntry]
  cases read : bareExpression? source with
  | some expr =>
      have unbound : unboundStmts (Program.printing expr).statements :=
        ⟨unbound_of_bareExpression? read, trivial⟩
      exact shadowed.execute unbound budget
  | none => exact shadowed.run budget source

/-- What stands in a variable or in a field of the one session is known to the other. -/
theorem Shadowed.knows (shadowed : Shadowed outlet session shadow) {value : Value}
    (contains : shadow.world.Contains value) : session.world.Knows value := by
  rw [shadowed.world] at contains
  exact shadowed.idle.sound.knows_of_contains contains

theorem Shadowed.defineNative (shadowed : Shadowed outlet session shadow) (name : String)
    (arity : Nat) {operation : Operation} (honest : operation.Honest shadow.world) :
    Shadowed outlet (session.defineNative name arity operation)
      (shadow.defineNative name arity operation) where
  idle := shadowed.idle.defineNative name arity (honest.answersFrom fun _ => shadowed.knows)
  world := congrArg (Lox.World.defineNative · name arity operation) shadowed.world
  resolver := congrArg (Resolver.defineGlobal · name) shadowed.resolver
  atTop := shadowed.atTop.defineGlobal name

theorem Shadowed.answer (shadowed : Shadowed outlet session shadow) (budget : Nat)
    {request : Request} (honest : request.Honest shadow.world) :
    Option.Rel (Report.Shows outlet) (session.answer budget request).1
        (shadow.answer budget request).1 ∧
      Shadowed outlet (session.answer budget request).2 (shadow.answer budget request).2 := by
  cases request with
  | run source =>
      obtain ⟨shows, after⟩ := shadowed.run budget source
      exact ⟨.some shows, after⟩
  | enter source =>
      obtain ⟨shows, after⟩ := shadowed.runEntry budget source
      exact ⟨.some shows, after⟩
  | provide name arity operation => exact ⟨.none, shadowed.defineNative name arity honest⟩

/-- Sessions that serve the same requests shadow each other throughout. -/
theorem Shadowed.served (shadowed : Shadowed outlet session shadow) (budget : Nat)
    {requests : List Request} (honest : shadow.ServedHonestly budget requests) :
    List.Forall₂ (Option.Rel (Report.Shows outlet))
        (serve (Session.answer budget) requests session).1
        (serve (Lox.Session.answer budget) requests shadow).1 ∧
      Shadowed outlet (serve (Session.answer budget) requests session).2
        (serve (Lox.Session.answer budget) requests shadow).2 := by
  induction requests generalizing session shadow with
  | nil => exact ⟨.nil, shadowed⟩
  | cons request rest inductionHypothesis =>
      obtain ⟨shows, next⟩ := shadowed.answer budget honest.1
      obtain ⟨others, final⟩ := inductionHypothesis next honest.2
      exact ⟨.cons shows others, final⟩

theorem shadowed_serve (callLimit : Nat) (outlet : Outlet) (clock : Clock) (budget : Nat)
    {requests : List Request}
    (honest : (Lox.Session.new callLimit outlet clock).ServedHonestly budget requests) :
    List.Forall₂ (Option.Rel (Report.Shows outlet))
        (serve (answer budget) requests (new callLimit outlet clock)).1
        (serve (Lox.Session.answer budget) requests (Lox.Session.new callLimit outlet clock)).1 ∧
      Shadowed outlet (serve (answer budget) requests (new callLimit outlet clock)).2
        (serve (Lox.Session.answer budget) requests (Lox.Session.new callLimit outlet clock)).2 :=
  (shadowed_new callLimit outlet clock).served budget honest

/-- Whatever is asked of it, a session answers as the session does that finds variables
by name, and has the same globals with the same values. -/
theorem serve_shows (callLimit : Nat) (outlet : Outlet) (clock : Clock) (budget : Nat)
    {requests : List Request}
    (honest : (Lox.Session.new callLimit outlet clock).ServedHonestly budget requests) :
    List.Forall₂ (Option.Rel (Report.Shows outlet))
        (serve (answer budget) requests (new callLimit outlet clock)).1
        (serve (Lox.Session.answer budget) requests (Lox.Session.new callLimit outlet clock)).1 ∧
      (serve (Lox.Session.answer budget) requests
          (Lox.Session.new callLimit outlet clock)).2.world.globals =
        (serve (answer budget) requests (new callLimit outlet clock)).2.world.globals := by
  obtain ⟨shows, shadowed⟩ := shadowed_serve callLimit outlet clock budget honest
  refine ⟨shows, ?_⟩
  rw [shadowed.world]
  rfl

/-- A counter in a closure, a native, and a value that is shown at the prompt. -/
def counterRequests : List Request :=
  [.run "fun make() \x7b var n = 1; fun up() \x7b n = n + n; return n; \x7d return up; \x7d",
    .provide "first" 1 (.host fun arguments => .ok (arguments.headD .nil)),
    .enter "first(make()())"]

theorem honest_counterRequests :
    (Lox.Session.new 2048 .working (.still 0)).ServedHonestly 200 counterRequests := by
  refine ⟨trivial, ?_, trivial, trivial⟩
  intro moment arguments result answered
  obtain rfl : arguments.headD .nil = result := Except.ok.inj answered
  cases arguments with
  | nil => exact .nil
  | cons first rest => exact .given (.inl List.mem_cons_self)

theorem serve_shows_counter :
    List.Forall₂ (Option.Rel (Report.Shows .working))
        (serve (answer 200) counterRequests (new 2048 .working (.still 0))).1
        (serve (Lox.Session.answer 200) counterRequests (Lox.Session.new 2048 .working (.still 0))).1 ∧
      (serve (Lox.Session.answer 200) counterRequests
          (Lox.Session.new 2048 .working (.still 0))).2.world.globals =
        (serve (answer 200) counterRequests (new 2048 .working (.still 0))).2.world.globals :=
  serve_shows 2048 .working (.still 0) 200 honest_counterRequests

end Session

end Lox.Lexical
