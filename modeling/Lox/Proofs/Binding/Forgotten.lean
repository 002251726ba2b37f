import Lox.Proofs.Binding.Enforced
import Lox.Proofs.Binding.Matched

/-!
Contract: what a resolver keeps of its history.

Names that are known in front of a program change its regions only outside of all local
scopes, and there they matter to one rule: they save reads of globals in their own
initializers. Addresses do not depend on them at all.

Main statement: `resolve_after_forgets`.

Owns: programs behind different histories. Does not own: which names a history makes known.
-/

set_option autoImplicit false

namespace Lox

/-! ## More known names -/

namespace Regions

/-- The same place, if these names are known in front of the program as well. -/
def knowing (known : List String) : Regions → Regions
  | [] => []
  | .block names :: outer => .block names :: knowing known outer
  | .function isInitializer names :: outer => .function isInitializer names :: knowing known outer
  | .methods inherits :: outer => .methods inherits :: knowing known outer
  | .loop :: outer => .loop :: knowing known outer
  | .initializer name earlier :: outer =>
      .initializer name (if isLocal outer then earlier else known ++ earlier) ::
        knowing known outer
  | .program names :: outer => .program (known ++ names) :: outer

variable {around : Regions} (known : List String)

@[simp] theorem isLocal_knowing (around : Regions) :
    (around.knowing known).isLocal = around.isLocal := by
  induction around with
  | nil => rfl
  | cons region outer inductionHypothesis =>
      cases region <;> first | rfl | exact inductionHypothesis

@[simp] theorem inLoop_knowing (around : Regions) :
    (around.knowing known).inLoop = around.inLoop := by
  induction around with
  | nil => rfl
  | cons region outer inductionHypothesis =>
      cases region <;> first | rfl | exact inductionHypothesis

@[simp] theorem function?_knowing (around : Regions) :
    (around.knowing known).function? = around.function? := by
  induction around with
  | nil => rfl
  | cons region outer inductionHypothesis =>
      cases region <;> first | rfl | exact inductionHypothesis

@[simp] theorem class?_knowing (around : Regions) :
    (around.knowing known).class? = around.class? := by
  induction around with
  | nil => rfl
  | cons region outer inductionHypothesis =>
      cases region <;> first | rfl | exact inductionHypothesis

/-- In a local scope, the names that it declares are the same. -/
theorem declared_knowing_of_isLocal (isLocal : around.isLocal = true) :
    (around.knowing known).declared = around.declared := by
  induction around with
  | nil => rfl
  | cons region outer inductionHypothesis =>
      cases region <;> first | rfl | exact inductionHypothesis isLocal | cases isLocal

theorem AtStatement.knowing (atStatement : around.AtStatement) :
    (around.knowing known).AtStatement := by
  induction atStatement with
  | block names outer => exact .block names _
  | function isInitializer names outer => exact .function isInitializer names _
  | program names => exact .program _
  | loop _ inductionHypothesis => exact .loop inductionHypothesis

theorem AtStatement.declared_knowing (atStatement : around.AtStatement) :
    (around.knowing known).declared =
      if around.isLocal then around.declared else known ++ around.declared := by
  induction atStatement with
  | block names outer => rfl
  | function isInitializer names outer => rfl
  | program names => rfl
  | loop _ inductionHypothesis => exact inductionHypothesis

theorem AtStatement.knowing_declare (atStatement : around.AtStatement) (name : String) :
    (around.declare name).knowing known = (around.knowing known).declare name := by
  induction atStatement with
  | block names outer => rfl
  | function isInitializer names outer => rfl
  | program names => simp [Regions.declare, Regions.knowing]
  | loop _ inductionHypothesis => exact congrArg (List.cons .loop) inductionHypothesis

/-- Regions that open and names that are declared do not depend on what is known. -/
theorem kept_knowing : Kept fun first second => second = first.knowing known where
  declare first second atFirst _ here name := by rw [here, atFirst.knowing_declare]
  initializer first second atFirst _ here name := by
    rw [here, ← atFirst.knowing_declare, atFirst.declared_knowing, Regions.knowing,
      isLocal_declare]
  block first second here := by rw [here, Regions.knowing]
  function first second here isInitializer names := by rw [here, Regions.knowing]
  methods first second here inherits := by rw [here, Regions.knowing]
  loop first second here := by rw [here, Regions.knowing]

end Regions

namespace Occurrence

/-- The same occurrence, if these names are known in front of the program as well. -/
def knowing (known : List String) (occurrence : Occurrence) : Occurrence :=
  { occurrence with around := occurrence.around.knowing known }

/-- Whether a global is read directly in its own initializer. -/
def readsOwnGlobal : Occurrence → Bool
  | ⟨.read reference, .initializer name _ :: outer⟩ =>
      reference.name.text = name && !Regions.isLocal outer
  | _ => false

theorem errors_read_knowing (known : List String) (reference : Reference) (around : Regions) :
    errors ⟨.read reference, around.knowing known⟩ =
      if readsOwnGlobal ⟨.read reference, around⟩ ∧ reference.name.text ∈ known then []
      else errors ⟨.read reference, around⟩ := by
  simp only [errors_read]
  cases around with
  | nil => simp [Regions.knowing, Regions.initializing?]
  | cons region outer =>
      cases region with
      | initializer name earlier =>
          simp only [Regions.knowing, Regions.initializing?, readsOwnGlobal]
          by_cases isLocal : Regions.isLocal outer = true
          · simp [isLocal]
          · by_cases own : reference.name.text = name
            · subst own
              by_cases present : reference.name.text ∈ known <;> simp [isLocal, present]
            · simp [own, Ne.symm own]
      | _ => simp [Regions.knowing, Regions.initializing?, readsOwnGlobal]

/-- Names that are known save reads of globals in their own initializers, and nothing else. -/
theorem errors_knowing (known : List String) (occurrence : Occurrence) :
    (occurrence.knowing known).errors =
      if occurrence.readsOwnGlobal ∧ occurrence.node.lexeme ∈ known then []
      else occurrence.errors := by
  obtain ⟨node, around⟩ := occurrence
  cases node with
  | read reference => exact errors_read_knowing known reference around
  | assign reference => simp [knowing, readsOwnGlobal, errors_assign]
  | superclass reference className => simp [knowing, readsOwnGlobal, errors_superclass]
  | this address span => simp [knowing, readsOwnGlobal, errors_this]
  | super address span => simp [knowing, readsOwnGlobal, errors_super]
  | declaration name =>
      simp only [knowing, readsOwnGlobal, errors_declaration, Regions.isLocal_knowing,
        Bool.false_eq_true, false_and, if_false]
      cases isLocal : around.isLocal with
      | false => simp
      | true => rw [Regions.declared_knowing_of_isLocal known isLocal]
  | «return» hasValue span => simp [knowing, readsOwnGlobal, errors_return]
  | «break» span => simp [knowing, readsOwnGlobal, errors_break]
  | «continue» span => simp [knowing, readsOwnGlobal, errors_continue]

end Occurrence

/-! ## Programs -/

/-- The same occurrences, but for the names that are known in front of the program. -/
theorem Program.occurrences_knowing (program : Program) (known : List String) :
    program.occurrences known = (program.occurrences []).map (Occurrence.knowing known) := by
  have here : [.program known] = Regions.knowing known [.program []] := by
    simp [Regions.knowing]
  have matched := matched_occurrencesOfStmts (Regions.kept_knowing known) (.program [])
    (.program known) here program.statements
  have same : List.Forall₂ (fun one other => one.knowing known = other) (program.occurrences [])
      (program.occurrences known) := matched.imp fun one other both => by
    rw [Occurrence.knowing, both.1, ← both.2]
  rw [← List.forall₂_map_left_iff, List.forall₂_eq_eq_eq] at same
  exact same.symm

/-- The errors for reads of globals in their own initializers. -/
def Program.ownGlobalReads (program : Program) : List BindingError :=
  ((program.occurrences []).filter Occurrence.readsOwnGlobal).flatMap Occurrence.errors

namespace Binding

theorem errors_resolve_known (history : List Resolver.Task) (program : Program) :
    ((Resolver.after history).resolve program).errors =
      (program.occurrences []).flatMap fun occurrence =>
        if occurrence.readsOwnGlobal ∧ occurrence.node.lexeme ∈ namesOf history then []
        else occurrence.errors := by
  rw [((awaits_after history).resolve program).2.1, program.occurrences_knowing,
    List.flatMap_map]
  simp only [Occurrence.errors_knowing]

/-- Other errors than those for reads of globals in their own initializers do not depend on
the history. -/
theorem filter_errors_resolve (history : List Resolver.Task) (program : Program) :
    ((Resolver.after history).resolve program).errors.filter (· ∉ program.ownGlobalReads) =
      (program.occurrences []).flatMap fun occurrence =>
        occurrence.errors.filter (· ∉ program.ownGlobalReads) := by
  rw [errors_resolve_known, List.filter_flatMap]
  refine List.flatMap_congr fun occurrence member => ?_
  split
  · next saved =>
      refine (List.filter_eq_nil_iff.mpr fun error reported => ?_).symm
      have own : error ∈ program.ownGlobalReads :=
        List.mem_flatMap.mpr ⟨occurrence, by simp [member, saved.1], reported⟩
      simp [own]
  · rfl

/-- Behind any history and any program, right or wrong, nothing is left but names that are
known. The addresses of a program do not depend on its history, and are kept when it is bound
again, behind whatever else. Of the errors, the history decides only on reads of globals in
their own initializers: these are reported unless the name is known. -/
theorem resolve_after_forgets (history other : List Resolver.Task) (program : Program) :
    AtTop ((Resolver.after history).resolve program).resolver ∧
      ((Resolver.after history).resolve program).program =
        ((Resolver.after other).resolve program).program ∧
      ((Resolver.after other).resolve
          ((Resolver.after history).resolve program).program).program =
        ((Resolver.after history).resolve program).program ∧
      ((Resolver.after history).resolve program).errors.filter (· ∉ program.ownGlobalReads) =
        ((Resolver.after other).resolve program).errors.filter (· ∉ program.ownGlobalReads) ∧
      ((Resolver.after history).resolve program).errors =
        (program.occurrences []).flatMap fun occurrence =>
          if occurrence.readsOwnGlobal ∧ occurrence.node.lexeme ∈ namesOf history then []
          else occurrence.errors := by
  have addressed := fun tasks tree => ((awaits_after tasks).resolve tree).1
  refine ⟨(awaits_after history).atTop.resolve program, ?_, ?_, ?_,
    errors_resolve_known history program⟩
  · rw [addressed, addressed]
  · rw [addressed, addressed, program.addressed_addressed]
  · rw [filter_errors_resolve, filter_errors_resolve]

end Binding

end Lox
