import Lox.Proofs.Places.Step
import Lox.Proofs.Spelling.Run

/-!
Contract: runs of programs at other places, in worlds at other places.

A run of a moved program in a moved world is the moved run. Since old places and those of
the program may be moved apart, this also tells where a fault comes from: either its span
is one of the program's, and follows wherever the program is moved to, or it is one of a
function from before, and stays.

Main statements: `World.interpret_moved`, `World.interpret_told`.

Owns: moved runs, and places told apart. Does not own: the reports on runs.
-/

set_option autoImplicit false

namespace Lox

/-! ## Moved runs -/

theorem World.Follows.of_host {move : Span → Span} {before after : World}
    (follows : before.Follows move) (same : after.host = before.host) : after.Follows move := by
  have natives : after.natives = before.natives := congrArg Host.natives same
  unfold World.Follows
  rw [natives]
  exact follows

/-- A run of the moved program in the moved world is the moved run. -/
theorem World.interpret_moved (move : Span → Span) (before : Array String) (budget : Nat)
    {world : World} (follows : world.Follows move)
    (ends : world.EndsInPlace move) (stmts : List Stmt) :
    (world.moved move before).interpret budget (movedStmts move stmts) =
      ((world.interpret budget stmts).1.moved move,
        (world.interpret budget stmts).2.moved move before) := by
  have ran := interpret_respelled (.moving move before) budget (follows.admits move before) ends
    (.inl rfl) stmts
  simp only [respelled_moving] at ran
  rw [← respelledStmts_moving move world.scope.isSome]
  exact ran

/-! ## Places told apart -/

namespace Span

/-- The move leaves all in place up to the line. -/
def MovesBeyond (line : Nat) (move : Span → Span) : Prop :=
  ∀ span : Span, span.line ≤ line → move span = span

/-- The place of something old, apart from all that is new, and the same up to the line. -/
def asOld (line : Nat) (span : Span) : Span :=
  ⟨span.line + (span.line - line), span.column, span.length⟩

/-- The place of something new, beyond the line and apart from all that is old. -/
def asNew (line : Nat) (span : Span) : Span := ⟨line + 2 * span.line + 1, span.column, span.length⟩

/-- The place that was told apart, and if it was new, moved. -/
def told (line : Nat) (move : Span → Span) (span : Span) : Span :=
  if (span.line - line) % 2 = 0 then
    ⟨span.line - (span.line - line) / 2, span.column, span.length⟩
  else move ⟨(span.line - line) / 2, span.column, span.length⟩

variable (line : Nat) (move : Span → Span)

theorem told_asOld (span : Span) : (span.asOld line).told line move = span := by
  have even : (span.line + (span.line - line) - line) % 2 = 0 := by omega
  have half : span.line + (span.line - line) - (span.line + (span.line - line) - line) / 2 =
      span.line := by
    omega
  simp [told, asOld, even, half]

theorem told_asNew (span : Span) : (span.asNew line).told line move = move span := by
  have odd : (line + 2 * span.line + 1 - line) % 2 = 1 := by omega
  have half : (line + 2 * span.line + 1 - line) / 2 = span.line := by omega
  simp [told, asNew, odd, half]

theorem told_movesBeyond : MovesBeyond line (told line move) := by
  intro span within
  have none : span.line - line = 0 := by omega
  simp [told, none]

/-- What was told apart follows where the new is moved, or stays. -/
theorem told_follows_or_stays (span : Span) :
    (∀ move, span.told line move = move (span.told line id)) ∨
      ∀ move, span.told line move = span.told line id := by
  unfold told
  split
  · exact .inr fun _ => rfl
  · exact .inl fun _ => rfl

end Span

/-- What the native answers depends on what its arguments are, and not on where their
functions were written. It may hold functions of its own, which were written up to the
line: those stay. -/
def Operation.Placeless (line : Nat) (operation : Operation) : Prop :=
  ∀ move, Span.MovesBeyond line move → operation.Follows move

/-- No native of the world looks at places. -/
def World.Placeless (line : Nat) (world : World) : Prop :=
  ∀ move, Span.MovesBeyond line move → world.Follows move

theorem World.Placeless.of_host {line : Nat} {before after : World}
    (placeless : before.Placeless line) (same : after.host = before.host) :
    after.Placeless line :=
  fun move beyond => (placeless move beyond).of_host same

/-- Where a program is moved alone, old and new are still told apart: one run stands for
all, wherever the program is moved and whatever was printed before. -/
theorem World.interpret_told (line budget : Nat) {world : World}
    (placeless : world.Placeless line) (stmts : List Stmt) :
    ∃ (verdict : Verdict) (reached : World), ∀ (move : Span → Span) (before : Array String),
      (world.moved id before).interpret budget (movedStmts move stmts) =
        (verdict.moved (Span.told line move), reached.moved (Span.told line move) before) := by
  let apart := world.moved (Span.asOld line) #[]
  let program := movedStmts (Span.asNew line) stmts
  refine ⟨(apart.interpret budget program).1, (apart.interpret budget program).2,
    fun move before => ?_⟩
  have follows : apart.Follows (Span.told line move) :=
    placeless (Span.told line move) (Span.told_movesBeyond line move)
  -- What fails at the end of a program stands nowhere, and stays there.
  have ends : apart.EndsInPlace (Span.told line move) :=
    .inl (Span.told_movesBeyond line move .nowhere (Nat.zero_le line))
  have old : Span.told line move ∘ Span.asOld line = id := funext (Span.told_asOld line move)
  have new : Span.told line move ∘ Span.asNew line = move := funext (Span.told_asNew line move)
  have ran := interpret_moved (Span.told line move) before budget follows ends program
  rwa [World.moved_moved, movedStmts_movedStmts, old, new, Array.append_empty] at ran

end Lox
