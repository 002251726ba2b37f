import Lox.Proofs.Lexical.Erasure

/-!
Contract: when a run by name and a run by slot are at the same point.

A stack fits a setting if each of its frames awaits its result in the setting in which
the result arrives: trees are bound there, and values known. Two machines mirror each
other if the world of one is the erasure of the sound world of the other and they are
about to do the same, for which the stack fits.

Owns: `Fits`, `Mirrors`, and that what grows elsewhere does no harm to a stack. Does
not own: steps.
-/

set_option autoImplicit false

namespace Lox

open Binding

/-- The names in the loop are bound. -/
def Loop.Bound (context : Context) (loop : Loop) : Prop :=
  loop.condition.Bound context ∧ (loop.body.Bound context ∧ loop.body.declared? = none) ∧
    boundOptionalExpr context loop.increment

end Lox

namespace Lox.Lexical

open Binding

/-- An activation, or the top level, further out than another activation. -/
def Outside (previous scope : Option EnvironmentRef) : Prop :=
  ∀ ref ∈ previous, ∃ inner, scope = some inner ∧ ref < inner

namespace World

/-- The value that the flow brings, if any, is known. -/
def KnowsFlow (world : World) : Flow → Prop
  | .return value => world.Knows value
  | _ => True

/-- The frame may await its result in this setting. -/
def Admits (world : World) (setting : Setting) {awaited outcome : Awaited} :
    Frame awaited outcome → Prop
  | .assign target => target.Bound setting.context ∧ Plain target.name.text
  | .unary _ _ => True
  | .leftOperand _ right _ => right.Bound setting.context
  | .rightOperand _ left _ => world.Knows left
  | .logical _ right => right.Bound setting.context
  | .callee arguments _ => boundExprs setting.context arguments
  | .argument callee before others _ =>
      world.Knows callee ∧ (∀ value ∈ before, world.Knows value) ∧
        boundExprs setting.context others
  | .property _ => True
  | .fieldObject _ value => value.Bound setting.context
  | .fieldValue _ _ => True
  | .discard => setting.pending = none
  | .print _ => setting.pending = none
  | .declare name => Plain name.text ∧ setting.pending = setting.scope.map fun _ => name.text
  | .branch thenBranch elseBranch =>
      setting.pending = none ∧
        (thenBranch.Bound setting.context ∧ thenBranch.declared? = none) ∧
        boundBranch setting.context elseBranch
  | .condition loop => setting.pending = none ∧ loop.Bound setting.context
  | .round loop => setting.pending = none ∧ loop.Bound setting.context
  | .increment loop => setting.pending = none ∧ loop.Bound setting.context
  | .return => setting.pending = none
  | .sequence others => setting.pending = none ∧ boundStmts setting.context others
  | .leave previous => Outside previous setting.scope
  | .body function _ => world.KnowsFunction function
  | .construct object => world.KnowsClass object.origin
  | .call => True

/-- Behind the frame the stack goes on in this setting. Behind the rest of a sequence
the names of the sequence no longer matter. -/
def Leads (world : World) (setting behind : Setting) {awaited outcome : Awaited} :
    Frame awaited outcome → Prop
  | .declare _ => behind = { setting with pending := none }
  | .leave previous => behind = world.settingAt previous
  | .sequence _ => behind.scope = setting.scope ∧ behind.pending = setting.pending
  | _ => behind = setting

/-- The stack may await a result in this setting; it ends at top level. -/
def Fits (world : World) : {awaited : Awaited} → Setting → Stack awaited → Prop
  | _, setting, .empty => setting.scope = none
  | _, setting, .push frame rest =>
      world.Admits setting frame ∧
        ∀ behind, world.Leads setting behind frame → world.Fits behind rest

variable {outlet : Outlet} {world before after : World} {setting behind : Setting}

/-! ## Growth -/

theorem KnowsFlow.mono {flow : Flow} (known : before.KnowsFlow flow)
    (grows : Grows before after) : after.KnowsFlow flow := by
  cases flow with
  | «return» value => exact Knows.mono known grows
  | _ => trivial

theorem Admits.mono {awaited outcome : Awaited} {frame : Frame awaited outcome}
    (admits : before.Admits setting frame) (grows : Grows before after) :
    after.Admits setting frame := by
  cases frame with
  | rightOperand operator left span => exact Knows.mono admits grows
  | argument callee arguments others span =>
      obtain ⟨callee, arguments, bound⟩ := admits
      exact ⟨callee.mono grows, fun value member => (arguments value member).mono grows, bound⟩
  | body function span => exact KnowsFunction.mono admits grows
  | construct object => exact KnowsClass.mono admits grows
  | _ => exact admits

/-- The way out of a frame leads to an activation that is no further in. -/
theorem Leads.outside {awaited outcome : Awaited} {frame : Frame awaited outcome}
    (leads : world.Leads setting behind frame) (admits : world.Admits setting frame)
    {ref : EnvironmentRef} (outside : Outside (some ref) behind.scope) :
    Outside (some ref) setting.scope := by
  cases frame with
  | leave previous =>
      obtain rfl : behind = world.settingAt previous := leads
      obtain ⟨middle, here, less⟩ := outside ref rfl
      obtain ⟨inner, scope, further⟩ := admits middle here
      intro other same
      obtain rfl : ref = other := Option.some.inj same
      exact ⟨inner, scope, Nat.lt_trans less further⟩
  | sequence others =>
      rw [← leads.1]
      exact outside
  | declare name =>
      obtain rfl : behind = { setting with pending := none } := leads
      exact outside
  | _ =>
      obtain rfl : behind = setting := leads
      exact outside

/-- A stack still fits if all settings further out are as before. -/
theorem Fits.mono {awaited : Awaited} {stack : Stack awaited} (fits : before.Fits setting stack)
    (grows : Grows before after)
    (steady : ∀ ref, Outside (some ref) setting.scope →
      after.settingAt (some ref) = before.settingAt (some ref)) :
    after.Fits setting stack := by
  induction stack generalizing setting with
  | empty => exact fits
  | push frame rest inductionHypothesis =>
      obtain ⟨admits, goesOn⟩ := fits
      refine ⟨admits.mono grows, ?_⟩
      intro behind leads
      have ledBefore : before.Leads setting behind frame := by
        cases frame with
        | leave previous =>
            obtain rfl : behind = after.settingAt previous := leads
            cases previous with
            | none => rfl
            | some ref => exact steady ref admits
        | _ => exact leads
      exact inductionHypothesis (goesOn behind ledBefore)
        fun ref outside => steady ref (ledBefore.outside admits outside)

theorem Becomes.fits {awaited : Awaited} {stack : Stack awaited} {reached : Setting}
    (becomes : Becomes outlet before after reached) (ready : before.Ready outlet)
    (here : setting.scope = before.scope) (fits : before.Fits setting stack) :
    after.Fits setting stack := by
  refine fits.mono becomes.grows ?_
  intro ref outside
  obtain ⟨inner, scope, less⟩ := outside ref rfl
  have present : before.scope = some inner := here.symm.trans scope
  refine becomes.elsewhere ref (Nat.lt_trans less (ready.inScope inner present)) ?_
  intro same
  obtain rfl : inner = ref := Option.some.inj (present.symm.trans same)
  exact Nat.lt_irrefl inner less

theorem Keeps.fits {awaited : Awaited} {stack : Stack awaited} (keeps : Keeps outlet before after)
    (ready : before.Ready outlet) (fits : before.Fits before.setting stack) :
    after.Fits after.setting stack := by
  rw [keeps.setting]
  exact Becomes.fits keeps ready rfl fits

end World

/-! ## Machines -/

/-- The two machines are at the same point, and nothing that follows can tell names
and slots apart. -/
inductive Mirrors (outlet : Outlet) : Machine → Lox.Machine → Prop
  | evaluate {world : World} {expr : Expr} {stack : Stack .value} (ready : world.Ready outlet)
      (bound : expr.Bound world.setting.context) (fits : world.Fits world.setting stack) :
      Mirrors outlet (.evaluate world expr stack) (.evaluate world.erase expr stack)
  | execute {world : World} {stmt : Stmt} {stack : Stack .flow} (ready : world.Ready outlet)
      (noneWaits : world.setting.pending = none) (bound : stmt.Bound world.setting.context)
      (fits : world.Fits
        { world.setting with context := stmt.contextAfter world.setting.context } stack) :
      Mirrors outlet (.execute world stmt stack) (.execute world.erase stmt stack)
  | answer {world : World} {value : Value} {stack : Stack .value} (ready : world.Ready outlet)
      (known : world.Knows value) (fits : world.Fits world.setting stack) :
      Mirrors outlet (.answer world value stack) (.answer world.erase value stack)
  | finish {world : World} {flow : Flow} {stack : Stack .flow} (ready : world.Ready outlet)
      (known : world.KnowsFlow flow) (fits : world.Fits world.setting stack) :
      Mirrors outlet (.finish world flow stack) (.finish world.erase flow stack)
  | raise {world : World} {mishap : Mishap} {fault : Fault} {awaited : Awaited}
      {stack : Stack awaited} (sound : world.Sound outlet) (shows : mishap.Shows outlet fault) :
      Mirrors outlet (.raise world mishap stack) (.raise world.erase fault stack)

namespace Mirrors

variable {outlet : Outlet}

/-- What mirrored machines have reached is sound, and differs in the names alone. -/
theorem world {machine : Machine} {shadow : Lox.Machine} (mirrors : Mirrors outlet machine shadow) :
    machine.world.Sound outlet ∧ shadow.world = machine.world.erase := by
  cases mirrors with
  | evaluate ready _ _ => exact ⟨ready.sound, rfl⟩
  | execute ready _ _ _ => exact ⟨ready.sound, rfl⟩
  | answer ready _ _ => exact ⟨ready.sound, rfl⟩
  | finish ready _ _ => exact ⟨ready.sound, rfl⟩
  | raise sound _ => exact ⟨sound, rfl⟩

theorem isDone {machine : Machine} {shadow : Lox.Machine} (mirrors : Mirrors outlet machine shadow) :
    machine.isDone = shadow.isDone := by
  cases mirrors with
  | evaluate => rfl
  | execute => rfl
  | @answer _ _ stack _ _ _ => cases stack <;> rfl
  | @finish _ _ stack _ _ _ => cases stack <;> rfl
  | @raise _ _ _ _ stack _ _ => cases stack <;> rfl

end Mirrors

end Lox.Lexical
