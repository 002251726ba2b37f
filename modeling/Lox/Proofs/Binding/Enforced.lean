import Lox.Proofs.Binding.Followed

/-!
Contract: the rules about names, jumps and classes, after any history.

A resolver is told of globals and binds programs, right and wrong ones, in any order. Of
all that it keeps only which names are known: those that it was told of and those that
the programs declare at top level.

Main statement: `errors_resolve_after`. After any history, a program gets one error for
each rule that is broken at an occurrence, in the order of the occurrences, and no other.

Owns: histories of a resolver. Does not own: what a host asks of a session.
-/

set_option autoImplicit false

namespace Lox

/-- What a resolver is used for. -/
inductive Resolver.Task where
  /-- To be told of a global. -/
  | define (name : String)
  /-- To bind a program. -/
  | bind (program : Program)

/-- The names that are known behind the task. -/
def Resolver.Task.names : Resolver.Task → List String
  | .define name => [name]
  | .bind program => program.declares

/-- The names that are known behind the tasks. -/
def namesOf (history : List Resolver.Task) : List String :=
  history.flatMap Resolver.Task.names

/-- The resolver behind the task. -/
def Resolver.perform (resolver : Resolver) : Resolver.Task → Resolver
  | .define name => resolver.defineGlobal name
  | .bind program => (resolver.resolve program).resolver

/-- A resolver with a history. -/
def Resolver.after (history : List Resolver.Task) : Resolver :=
  history.foldl Resolver.perform Resolver.fresh

namespace Binding

variable {names : List String} {resolver : Resolver}

/-- The resolver is between two programs, and knows these names. -/
structure Awaits (names : List String) (resolver : Resolver) : Prop where
  stands : Stands [.program names] resolver
  errors : resolver.errors = []

theorem Awaits.atTop (awaits : Awaits names resolver) : AtTop resolver where
  scopes := List.map_eq_nil_iff.mp awaits.stands.context
  functionKind := awaits.stands.outside.mpr rfl
  classKind := awaits.stands.classKind
  loopDepth := awaits.stands.loopDepth.mpr rfl
  errors := awaits.errors

theorem Awaits.settled (awaits : Awaits names resolver) : Settled resolver.globals := by
  intro name waits
  have pending : inOwnInitializer resolver name = true := by
    simp [inOwnInitializer, awaits.atTop.scopes, awaits.atTop.functionKind, waits]
  cases (awaits.stands.pending name).mp pending

theorem Awaits.known (awaits : Awaits names resolver) (name : String) :
    resolver.globals.find? name = none ↔ name ∉ names :=
  awaits.stands.known awaits.atTop.scopes name

theorem awaits_of_known (atTop : AtTop resolver) (settled : Settled resolver.globals)
    (known : ∀ name, resolver.globals.find? name = none ↔ name ∉ names) :
    Awaits names resolver :=
  ⟨stands_top atTop settled known, atTop.errors⟩

theorem awaits_fresh : Awaits [] Resolver.fresh :=
  awaits_of_known (atTop_withGlobals .empty)
    (fun name => by simp [Resolver.fresh, Resolver.withGlobals])
    (fun name => by simp [Resolver.fresh, Resolver.withGlobals])

theorem Awaits.defineGlobal (awaits : Awaits names resolver) (name : String) :
    Awaits (names ++ [name]) (resolver.defineGlobal name) := by
  have added := overlaid_insert resolver.globals name
  refine awaits_of_known (awaits.atTop.defineGlobal name) (added.settled awaits.settled) ?_
  intro other
  refine (added.find?_eq_none other).trans ?_
  rw [awaits.known, List.mem_append, not_or, and_comm]

/-- In front of a program: the program gets its addresses, the errors are those of its
occurrences, and behind it the names are known that it declares. -/
theorem Awaits.resolve (awaits : Awaits names resolver) (program : Program) :
    (resolver.resolve program).program = program.addressed ∧
      (resolver.resolve program).errors =
        (program.occurrences names).flatMap Occurrence.errors ∧
      Awaits (names ++ program.declares) (resolver.resolve program).resolver := by
  obtain ⟨after, yields, errors, same⟩ := yields_resolve resolver program
  obtain ⟨found, stands, reported⟩ :=
    moves_resolveStmts (.program names) program.statements awaits.stands yields
  rw [awaits.errors, List.nil_append] at reported
  rw [Regions.declareAll_program] at stands
  refine ⟨congrArg Program.mk found, errors.trans reported, ?_⟩
  rw [same]
  exact ⟨stands.report [], rfl⟩

theorem Awaits.perform (awaits : Awaits names resolver) (task : Resolver.Task) :
    Awaits (names ++ task.names) (resolver.perform task) := by
  cases task with
  | define name => exact awaits.defineGlobal name
  | bind program => exact (awaits.resolve program).2.2

theorem Awaits.foldl_perform (awaits : Awaits names resolver) (history : List Resolver.Task) :
    Awaits (names ++ namesOf history) (history.foldl Resolver.perform resolver) := by
  induction history generalizing names resolver with
  | nil => simpa [namesOf] using awaits
  | cons task rest inductionHypothesis =>
      have behind := inductionHypothesis (awaits.perform task)
      rw [List.append_assoc] at behind
      exact behind

/-- A resolver with a history is between two programs, and knows the names of its history. -/
theorem awaits_after (history : List Resolver.Task) :
    Awaits (namesOf history) (Resolver.after history) :=
  awaits_fresh.foldl_perform history

/-- After any history, a program gets one error for each rule that is broken at one of its
occurrences, in the order of the occurrences, and no other; and it is accepted exactly if
no rule is broken anywhere. -/
theorem errors_resolve_after (history : List Resolver.Task) (program : Program) :
    ((Resolver.after history).resolve program).errors =
        (program.occurrences (namesOf history)).flatMap Occurrence.errors ∧
      (∀ error, error ∈ ((Resolver.after history).resolve program).errors ↔
        ∃ occurrence ∈ program.occurrences (namesOf history), ∃ cause,
          occurrence.Breaks cause ∧ occurrence.error cause = error) ∧
      (((Resolver.after history).resolve program).errors = [] ↔
        ∀ occurrence ∈ program.occurrences (namesOf history), ∀ cause,
          ¬ occurrence.Breaks cause) := by
  have errors := ((awaits_after history).resolve program).2.1
  refine ⟨errors, ?_, ?_⟩
  · intro error
    rw [errors, List.mem_flatMap]
    simp only [Occurrence.mem_errors_iff]
  · rw [errors, List.flatMap_eq_nil_iff]
    simp only [Occurrence.errors_eq_nil_iff]

end Binding

end Lox
