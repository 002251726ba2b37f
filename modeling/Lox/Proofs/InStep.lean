import Lox.Proofs.Binding.Enforced
import Lox.Proofs.Binding.Matched
import Lox.Proofs.Running.CallLimit
import Lox.Proofs.Running.Names

/-!
Contract: globals and what the binding of names knows of them stay in step.

Two tables hold the names of globals: the world has their values, and the resolver knows
which of them may be read. They are changed at different times: the resolver learns the
names of a program as it binds it, and the world gets them one by one as statements come to
their end, if they do. A native comes into both at once.

Main statement: `Session.inStep_serve`. In every session that has served requests, every
global is known to be ready, no read of a global is rejected, and the next request makes
exactly the globals that its completed declarations declare.

Owns: both tables over whole sessions. Does not own: the rules of binding, and steps.
-/

set_option autoImplicit false

namespace Lox

open Binding

/-! ## Declarations at top level -/

mutual

/-- In a tree that was read, a statement that is no declaration declares nothing. -/
theorem Stmt.declares_of_unbound : (stmt : Stmt) → stmt.Unbound →
    stmt.declares = stmt.declared?.toList
  | .expression _ _, _ => by simp [Stmt.declares, Stmt.declared?]
  | .print _ _, _ => by simp [Stmt.declares, Stmt.declared?]
  | .var _ _ _, _ => by simp [Stmt.declares, Stmt.declared?]
  | .block _ _, _ => by simp [Stmt.declares, Stmt.declared?]
  | .conditional _ thenBranch elseBranch _, unbound => by
      simp only [Stmt.Unbound] at unbound
      obtain ⟨_, ⟨unboundThen, notDeclaration⟩, unboundElse⟩ := unbound
      have noName := thenBranch.declares_of_unbound unboundThen
      rw [notDeclaration] at noName
      simp [Stmt.declares, Stmt.declared?, noName,
        declaresOfOptionalStmt_of_unbound elseBranch unboundElse]
  | .loop _ body _ _, unbound => by
      simp only [Stmt.Unbound] at unbound
      obtain ⟨_, ⟨unboundBody, notDeclaration⟩, _⟩ := unbound
      have noName := body.declares_of_unbound unboundBody
      rw [notDeclaration] at noName
      simp [Stmt.declares, Stmt.declared?, noName]
  | .function _ _, _ => by simp [Stmt.declares, Stmt.declared?]
  | .return _ _, _ => by simp [Stmt.declares, Stmt.declared?]
  | .class _ _ _ _, _ => by simp [Stmt.declares, Stmt.declared?]
  | .break _, _ => by simp [Stmt.declares, Stmt.declared?]
  | .continue _, _ => by simp [Stmt.declares, Stmt.declared?]

theorem declaresOfOptionalStmt_of_unbound : (branch : Option Stmt) → unboundBranch branch →
    declaresOfOptionalStmt branch = []
  | none, _ => rfl
  | some branch, unbound => by
      simp only [unboundBranch] at unbound
      simp [declaresOfOptionalStmt, branch.declares_of_unbound unbound.1, unbound.2]

end

theorem Stmt.declared?_addressed (context : Context) (inClass : Bool) (stmt : Stmt) :
    (stmt.addressed context inClass).declared? = stmt.declared? := by
  cases stmt <;> simp [Stmt.addressed, Stmt.declared?]

/-- Statements with their addresses declare what the statements that were read declare. -/
theorem declared?_of_mem_addressedStmts {context : Context} {inClass : Bool} {stmts : List Stmt}
    (unbound : unboundStmts stmts) {stmt : Stmt}
    (member : stmt ∈ addressedStmts context inClass stmts) :
    stmt.declares = stmt.declared?.toList ∧
      ∀ name ∈ stmt.declared?, name ∈ declaresOfStmts stmts := by
  induction stmts generalizing context with
  | nil => simp [addressedStmts] at member
  | cons first rest inductionHypothesis =>
      simp only [unboundStmts] at unbound
      simp only [addressedStmts, List.mem_cons] at member
      obtain rfl | later := member
      · have single := first.declares_of_unbound unbound.1
        rw [Stmt.declares_addressed, Stmt.declared?_addressed]
        refine ⟨single, fun name declared => ?_⟩
        have here : name ∈ first.declares := by
          rw [single]
          exact Option.mem_toList.mpr declared
        exact List.mem_flatMap.mpr ⟨first, List.mem_cons_self, here⟩
      · obtain ⟨single, declared⟩ := inductionHypothesis unbound.2 later
        refine ⟨single, fun name own => ?_⟩
        obtain ⟨other, among, declares⟩ := List.mem_flatMap.mp (declared name own)
        exact List.mem_flatMap.mpr ⟨other, List.mem_cons_of_mem first among, declares⟩

namespace World

variable {world : World} {stmts : List Stmt}

/-- A program makes the globals that its completed statements declare, and no other. -/
theorem mem_names_interpret (outside : world.scope = none)
    (single : ∀ stmt ∈ stmts, stmt.declares = stmt.declared?.toList) (budget : Nat)
    (name : String) :
    name ∈ (world.interpret budget stmts).2.globals.names ↔
      name ∈ world.globals.names ∨ ∃ entry ∈ world.begun budget stmts,
        (entry.1.runStatement budget entry.2).1 = .completed ∧ entry.2.declared? = some name := by
  induction stmts generalizing world with
  | nil =>
      simp only [interpret, begun]
      split <;> simp
  | cons stmt others inductionHypothesis =>
      have alone := single stmt List.mem_cons_self
      have here := mem_names_runStatement outside alone budget name
      simp only [interpret, begun]
      split
      · next reached completed =>
          have back := scope_runStatement outside alone (congrArg Prod.fst completed)
          rw [completed] at here back
          have singleLater : ∀ other ∈ others, other.declares = other.declared?.toList :=
            fun other among => single other (List.mem_cons_of_mem _ among)
          rw [inductionHypothesis back singleLater, here]
          simp [completed, or_assoc]
      · next verdict reached notCompleted ended =>
          rw [ended] at here
          cases verdict with
          | completed => exact (notCompleted rfl).elim
          | failed fault => simpa [ended, World.atTopLevel] using here
          | unfinished => simpa [ended, World.atTopLevel] using here

/-- Only statements of the program are begun. -/
theorem mem_of_mem_begun {budget : Nat} {entry : World × Stmt}
    (member : entry ∈ world.begun budget stmts) : entry.2 ∈ stmts :=
  (begun_of_kept (fun _ _ _ _ _ _ => trivial) trivial (fun _ among => among) entry member).2

end World

/-! ## Reads of globals -/

/-- The occurrence reads the global of this name: no scope around it declares the name. -/
def Occurrence.ReadsGlobal (occurrence : Occurrence) (name : String) : Prop :=
  (∃ reference, occurrence.node = .read reference ∧ reference.name.text = name) ∧
    ∀ region ∈ occurrence.around, ¬ region.Declares name

namespace Regions

/-- What is said of a place in a program in front of which the names are known. -/
structure Knows (known : List String) (around : Regions) : Prop where
  /-- Outside of all local scopes the names are declared already. -/
  declared : around.AtStatement → around.isLocal = false → ∀ name ∈ known, name ∈ around.declared
  /-- Only a local variable of the name can wait for its initializer. -/
  initializing : ∀ name ∈ known, around.initializing? = some name →
    ∃ region ∈ around, region.Declares name

variable {around : Regions} {known : List String}

theorem AtStatement.exists_declares (atStatement : around.AtStatement)
    (isLocal : around.isLocal = true) (name : String) :
    ∃ region ∈ around.declare name, region.Declares name := by
  induction atStatement with
  | block names outer =>
      exact ⟨.block (names ++ [name]), List.mem_cons_self, names ++ [name], rfl, by simp⟩
  | function isInitializer names outer =>
      exact ⟨.function isInitializer (names ++ [name]), List.mem_cons_self, names ++ [name], rfl,
        by simp⟩
  | program names => cases isLocal
  | loop _ inductionHypothesis =>
      obtain ⟨region, member, declares⟩ := inductionHypothesis isLocal
      exact ⟨region, List.mem_cons_of_mem _ member, declares⟩

/-- Only right in an initializer there is something to say of what waits. -/
theorem knows_of_initializing? (none : around.initializing? = none)
    (declared : around.AtStatement → around.isLocal = false →
      ∀ name ∈ known, name ∈ around.declared) : around.Knows known where
  declared := declared
  initializing name _ waits := by
    rw [none] at waits
    cases waits

/-- Every place in a program knows the names that are known in front of it. -/
theorem kept_knows (known : List String) :
    Kept fun first second => first = second ∧ first.Knows known where
  declare first second atFirst _ here name := by
    obtain ⟨rfl, knows⟩ := here
    refine ⟨rfl, knows_of_initializing? (atFirst.declare name).initializing?_eq_none ?_⟩
    intro _ outside other member
    rw [atFirst.declared_declare]
    rw [isLocal_declare] at outside
    exact List.mem_append_left _ (knows.declared atFirst outside other member)
  initializer first second atFirst _ here name := by
    obtain ⟨rfl, knows⟩ := here
    refine ⟨rfl, nofun, fun other member waits => ?_⟩
    simp only [initializing?] at waits
    split at waits
    · cases waits
    · next undeclared =>
        obtain rfl := Option.some.inj waits
        cases isLocal : first.isLocal with
        | false => exact absurd (knows.declared atFirst isLocal name member) undeclared
        | true =>
            obtain ⟨region, among, declares⟩ := atFirst.exists_declares isLocal name
            exact ⟨region, List.mem_cons_of_mem _ among, declares⟩
  block first second here :=
    ⟨congrArg _ here.1, knows_of_initializing? rfl fun _ => nofun⟩
  function first second here isInitializer names :=
    ⟨congrArg _ here.1, knows_of_initializing? rfl fun _ => nofun⟩
  methods first second here inherits :=
    ⟨congrArg _ here.1, knows_of_initializing? rfl nofun⟩
  loop first second here := by
    refine ⟨congrArg _ here.1, knows_of_initializing? rfl fun atStatement => ?_⟩
    cases atStatement with
    | loop inner => exact here.2.declared inner

end Regions

/-- A global that is known in front of a program may be read anywhere in it. -/
theorem Program.errors_of_readsGlobal (program : Program) {known : List String}
    {occurrence : Occurrence} (member : occurrence ∈ program.occurrences known) {name : String}
    (present : name ∈ known) (reads : occurrence.ReadsGlobal name) : occurrence.errors = [] := by
  have top : Regions.Knows known [.program known] :=
    Regions.knows_of_initializing? rfl fun _ _ _ among => among
  have matched := matched_occurrencesOfStmts (Regions.kept_knows known) (.program known)
    (.program known) ⟨rfl, top⟩ program.statements
  have knows := (List.forall₂_same.mp matched occurrence member).2.2
  obtain ⟨⟨reference, read, rfl⟩, undeclared⟩ := reads
  obtain ⟨node, around⟩ := occurrence
  obtain rfl : node = .read reference := read
  rw [Occurrence.errors_read]
  split
  · next waits =>
      obtain ⟨region, among, declares⟩ := knows.initializing _ present waits
      exact absurd declares (undeclared region among)
  · rfl

/-! ## Sessions -/

namespace Session

variable {session : Session}

/-- Between two requests the session is at top level, and the resolver knows every global. -/
structure Aligned (session : Session) : Prop where
  atRest : session.AtRest
  top : session.world.atTopLevel = session.world
  known : ∀ name ∈ session.world.globals.names, name ∈ session.resolver.globals.names

theorem Aligned.outside (aligned : session.Aligned) : session.world.clearOutput.scope = none :=
  (World.atTopLevel_eq_self_iff.mp aligned.top).1

theorem Aligned.awaits (aligned : session.Aligned) :
    Awaits session.resolver.globals.names session.resolver :=
  awaits_of_known aligned.atRest.atTop aligned.atRest.settled
    session.resolver.globals.find?_eq_none_iff

/-- The program with its addresses declares what was read. -/
theorem Aligned.declared?_of_mem (aligned : session.Aligned) {program : Program}
    (unbound : unboundStmts program.statements) {stmt : Stmt}
    (member : stmt ∈ (session.resolver.resolve program).program.statements) :
    stmt.declares = stmt.declared?.toList ∧ ∀ name ∈ stmt.declared?, name ∈ program.declares := by
  rw [(aligned.awaits.resolve program).1] at member
  exact declared?_of_mem_addressedStmts unbound member

/-- A program makes the globals that its completed statements declare. -/
theorem Aligned.mem_names_interpret (aligned : session.Aligned) {program : Program}
    (unbound : unboundStmts program.statements) (budget : Nat) (name : String) :
    name ∈ (session.world.clearOutput.interpret budget
        (session.resolver.resolve program).program.statements).2.globals.names ↔
      name ∈ session.world.globals.names ∨
        ∃ entry ∈ session.world.clearOutput.begun budget
            (session.resolver.resolve program).program.statements,
          (entry.1.runStatement budget entry.2).1 = .completed ∧
            entry.2.declared? = some name :=
  World.mem_names_interpret aligned.outside
    (fun _ member => (aligned.declared?_of_mem unbound member).1) budget name

/-- Binding a program makes the names known that it declares. -/
theorem Aligned.mem_names_resolve (aligned : session.Aligned) (program : Program) (name : String) :
    name ∈ (session.resolver.resolve program).resolver.globals.names ↔
      name ∈ session.resolver.globals.names ∨ name ∈ program.declares := by
  have known := (aligned.awaits.resolve program).2.2.known name
  rw [Table.find?_eq_none_iff, not_iff_not, List.mem_append] at known
  exact known

theorem mem_names_foldl_defineGlobal (names : List String) (resolver : Resolver) (name : String) :
    name ∈ (names.foldl Resolver.defineGlobal resolver).globals.names ↔
      name ∈ resolver.globals.names ∨ name ∈ names := by
  induction names generalizing resolver with
  | nil => simp
  | cons first rest inductionHypothesis =>
      rw [List.foldl_cons, inductionHypothesis, Resolver.defineGlobal, Table.mem_names_insert,
        List.mem_cons, or_assoc]

/-! ### Answers -/

theorem aligned_new (callLimit : Nat) (outlet : Outlet) (clock : Clock) :
    (new callLimit outlet clock).Aligned where
  atRest := atRest_new callLimit outlet clock
  top := rfl
  known name present := (mem_names_foldl_defineGlobal _ _ name).mpr (.inr present)

theorem Aligned.execute (aligned : session.Aligned) {program : Program}
    (unbound : unboundStmts program.statements) (budget : Nat) :
    (session.execute budget program).2.Aligned := by
  have atRest := aligned.atRest.execute unbound budget
  by_cases accepted : (session.resolver.resolve program).errors = []
  · rw [execute_of_accepted budget accepted] at atRest ⊢
    have cleared : session.world.clearOutput.atTopLevel = session.world.clearOutput :=
      congrArg World.clearOutput aligned.top
    refine ⟨atRest, World.atTopLevel_interpret budget _ cleared, fun name present => ?_⟩
    refine (aligned.mem_names_resolve program name).mpr ?_
    obtain before | ⟨entry, begun, _, declared⟩ :=
      (aligned.mem_names_interpret unbound budget name).mp present
    · exact .inl (aligned.known name before)
    · have own := (aligned.declared?_of_mem unbound (World.mem_of_mem_begun begun)).2
      exact .inr (own name declared)
  · rw [execute_of_rejected budget accepted] at atRest ⊢
    exact ⟨atRest, aligned.top, fun name present =>
      (aligned.mem_names_resolve program name).mpr (.inl (aligned.known name present))⟩

theorem Aligned.provide (aligned : session.Aligned) (name : String) (arity : Nat)
    (operation : Operation) : (session.defineNative name arity operation).Aligned where
  atRest := aligned.atRest.defineNative name arity operation
  top := by
    obtain ⟨scope, depth⟩ := World.atTopLevel_eq_self_iff.mp aligned.top
    exact World.atTopLevel_eq_self_iff.mpr ⟨scope, depth⟩
  known other present := by
    refine (Table.mem_names_insert _ name other true).mpr ?_
    exact ((Table.mem_names_insert _ name other _).mp present).imp_left (aligned.known other)

theorem Aligned.answer (aligned : session.Aligned) (budget : Nat) (request : Request) :
    (session.answer budget request).2.Aligned := by
  cases read : request.program? with
  | none =>
      obtain ⟨report, same⟩ | ⟨name, arity, operation, rfl⟩ := answer_of_malformed budget read
      · rw [same]
        exact aligned
      · exact aligned.provide name arity operation
  | some program =>
      rw [answer_of_program? budget read]
      exact aligned.execute (Request.unbound_of_program? read) budget

/-- A session is aligned whatever requests it has served. -/
theorem Aligned.serve (aligned : session.Aligned) (budget : Nat) (requests : List Request) :
    (serve (Session.answer budget) requests session).2.Aligned := by
  induction requests generalizing session with
  | nil => exact aligned
  | cons request rest inductionHypothesis =>
      exact inductionHypothesis (aligned.answer budget request)

/-- The globals, and what the binding of names knows of them, are in step. -/
structure InStep (session : Session) : Prop where
  /-- Every global is known to be ready. -/
  ready : ∀ name ∈ session.world.globals.names, session.resolver.globals.find? name = some true
  /-- A program is rejected for what its occurrences break, and no read of a global breaks
  anything. -/
  reads : ∀ program : Program,
    (session.resolver.resolve program).errors =
        (program.occurrences session.resolver.globals.names).flatMap Occurrence.errors ∧
      ∀ occurrence ∈ program.occurrences session.resolver.globals.names,
        ∀ name ∈ session.world.globals.names, occurrence.ReadsGlobal name →
          occurrence.errors = []
  /-- However a request ends, its globals are those before it, a native that it provides, and
  what those of its statements declare that have come to their end. -/
  names : ∀ (budget : Nat) (request : Request) (name : String),
    name ∈ (session.answer budget request).2.world.globals.names ↔
      name ∈ session.world.globals.names ∨
        (∃ arity operation, request = .provide name arity operation) ∨
        ∃ entry ∈ session.begunBy budget request,
          (entry.1.runStatement budget entry.2).1 = .completed ∧ entry.2.declared? = some name
  /-- A request that is rejected leaves the globals as they were. -/
  rejected : ∀ (budget : Nat) (request : Request) (report : Report),
    (session.answer budget request).1 = some report → report.status = .staticError →
      (session.answer budget request).2.world.globals = session.world.globals

theorem Aligned.ready (aligned : session.Aligned) {name : String}
    (present : name ∈ session.world.globals.names) :
    session.resolver.globals.find? name = some true := by
  cases found : session.resolver.globals.find? name with
  | none =>
      exact absurd (aligned.known name present)
        ((session.resolver.globals.find?_eq_none_iff name).mp found)
  | some isReady =>
      cases isReady with
      | false => exact absurd found (aligned.atRest.settled name)
      | true => rfl

theorem Aligned.mem_names_answer (aligned : session.Aligned) (budget : Nat) (request : Request)
    (name : String) :
    name ∈ (session.answer budget request).2.world.globals.names ↔
      name ∈ session.world.globals.names ∨
        (∃ arity operation, request = .provide name arity operation) ∨
        ∃ entry ∈ session.begunBy budget request,
          (entry.1.runStatement budget entry.2).1 = .completed ∧
            entry.2.declared? = some name := by
  cases read : request.program? with
  | none =>
      have nothing : session.begunBy budget request = [] := by simp only [begunBy, read]
      obtain ⟨report, same⟩ | ⟨own, arity, operation, rfl⟩ := answer_of_malformed budget read
      · have other (arity : Nat) (operation : Operation) :
            request ≠ .provide name arity operation := by
          rintro rfl
          cases same session
        simp [same, nothing, other]
      · refine (Table.mem_names_insert _ own name _).trans ?_
        simp [nothing, eq_comm]
  | some program =>
      have unbound := Request.unbound_of_program? read
      have other (arity : Nat) (operation : Operation) :
          request ≠ .provide name arity operation := by
        rintro rfl
        cases read
      rw [answer_of_program? budget read]
      by_cases accepted : (session.resolver.resolve program).errors = []
      · rw [execute_of_accepted budget accepted]
        simpa [begunBy, read, accepted, other] using
          aligned.mem_names_interpret unbound budget name
      · rw [execute_of_rejected budget accepted]
        have nothing : session.begunBy budget request = [] := by
          simp only [begunBy, read]
        simp [nothing, other]

/-- In every session that has served requests, globals and what is known of them are in
step. -/
theorem inStep_serve (callLimit : Nat) (outlet : Outlet) (clock : Clock) (budget : Nat)
    (earlier : List Request) :
    (serve (answer budget) earlier (new callLimit outlet clock)).2.InStep := by
  have aligned := (aligned_new callLimit outlet clock).serve budget earlier
  exact {
    ready := fun name present => aligned.ready present
    reads := fun program => ⟨(aligned.awaits.resolve program).2.1,
      fun occurrence member name present reads =>
        program.errors_of_readsGlobal member (aligned.known name present) reads⟩
    names := fun budget request name => aligned.mem_names_answer budget request name
    rejected := fun budget request report answered rejected =>
      congrArg World.globals (aligned.atRest.stained_of_rejected answered rejected).world }

/-- A native may initialize a global of the same name. -/
example : ((new 2048 .working (.still 0)).answer 100 (.run "var clock = clock;")).1 =
    some ⟨.ok, [], ""⟩ := by
  decide +kernel

end Session

end Lox
