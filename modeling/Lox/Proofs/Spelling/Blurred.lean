import Lox.Proofs.Spelling.Run

/-!
Contract: what cannot be told apart in a run.

A spelling may put different things in one and the same way, and so blur them. A native overlooks
the difference if its answers to arguments that look alike look alike. It may hold functions of its
own, and so it need not answer in the spelling itself: a run with such natives is compared with one
in which all is put in the spelling, and the natives answer in it too.

Main statement: `World.Overlooks.interpret`.

Owns: blurring spellings, natives that overlook, and runs with them. Does not own: what a spelling
blurs.
-/

set_option autoImplicit false

namespace Lox

/-- What is blurred once is blurred for good. Nothing that stands nowhere is put anywhere. -/
structure Spelling.Blurs (spelling : Spelling) : Prop where
  again : spelling.after spelling = spelling
  nowhere : spelling.place .nowhere = .nowhere

/-- The native answers alike to arguments that look alike in the spelling. -/
def Operation.Overlooks (spelling : Spelling) (operation : Operation) : Prop :=
  ∀ (moment : Nat) (arguments others : List Value),
    arguments.map (Value.respelled spelling) = others.map (Value.respelled spelling) →
      (operation.answer moment arguments).map (Value.respelled spelling) =
        (operation.answer moment others).map (Value.respelled spelling)

/-- A clock looks at no arguments. -/
theorem Operation.overlooks_clock (spelling : Spelling) (clock : Clock) :
    (Operation.clock clock).Overlooks spelling :=
  fun _ _ _ _ => rfl

/-- The native, with its answers in the spelling. -/
def Operation.blurred (spelling : Spelling) (operation : Operation) : Operation :=
  ⟨fun moment arguments => (operation.answer moment arguments).map (Value.respelled spelling)⟩

/-- All in the spelling, with natives that answer in it. -/
def Edition.blurred (spelling : Spelling) : Edition := ⟨spelling, Operation.blurred spelling, #[]⟩

namespace World

/-- The natives of the world overlook what the spelling blurs. -/
def Overlooks (spelling : Spelling) (world : World) : Prop :=
  ∀ operation ∈ world.natives, operation.Overlooks spelling

variable {spelling : Spelling} {world : World}

theorem Overlooks.of_natives {other : World} (overlooks : world.Overlooks spelling)
    (same : other.natives = world.natives) : other.Overlooks spelling := by
  intro operation member
  exact overlooks operation (same ▸ member)

theorem Overlooks.of_host {other : World} (overlooks : world.Overlooks spelling)
    (same : other.host = world.host) : other.Overlooks spelling :=
  overlooks.of_natives (congrArg Host.natives same)

theorem Overlooks.admits (overlooks : world.Overlooks spelling)
    (again : spelling.after spelling = spelling) : world.Admits (.blurred spelling) := by
  intro operation member moment arguments
  refine overlooks operation member moment _ _ ?_
  rw [List.map_map]
  refine List.map_congr_left fun value _ => ?_
  exact (value.respelled_respelled spelling spelling).trans (by rw [again])

theorem output_blurred (spelling : Spelling) (world : World) :
    (world.respelled (.blurred spelling)).output = world.output := by
  simp [World.output, respelled, Edition.blurred]

/-- A run with such natives looks like the run of what the program and the world look like. -/
theorem Overlooks.interpret (overlooks : world.Overlooks spelling) (blurs : spelling.Blurs)
    (tracks : spelling.word = id ∨ world.callDepth ≤ world.callLimit) (budget : Nat)
    (stmts : List Stmt) :
    (world.respelled (.blurred spelling)).interpret budget
        (respelledStmts spelling world.scope.isSome stmts) =
      ((world.interpret budget stmts).1.moved spelling.place,
        (world.interpret budget stmts).2.respelled (.blurred spelling)) :=
  interpret_respelled (.blurred spelling) budget (overlooks.admits blurs.again)
    (.inl blurs.nowhere) tracks stmts

end World

end Lox
