import Lox.Proofs.Binding.Enforced
import Lox.Proofs.Unfolding.Tree

/-!
Contract: writing loops out changes nothing about the rules of binding.

A statement that stands in a loop which is written out has one more block around it, and the
increment of the loop stands in its body. No rule can tell: the loop body declares nothing, so
the new block stays empty; an increment is an expression, and jumps in it are about loops of its
own; and functions, classes and initializers around a place are the same.

Main statement: `Program.Unfolds.resolve`. The same rules are broken about the same words in the
same order, and trees that are bound still compare.

Owns: the errors and the bound tree of a program in which loops are written out. Does not own:
what the program does.
-/

set_option autoImplicit false

namespace Lox

open Binding

/-! ## Broken rules -/

/-- The rules that are broken at occurrences, each with the word that it is about. -/
def rulesBroken (occurrences : List Occurrence) : List (BindingError.Cause × String) :=
  (occurrences.flatMap Occurrence.errors).map fun error => (error.cause, error.lexeme)

@[simp] theorem rulesBroken_nil : rulesBroken [] = [] := rfl

@[simp] theorem rulesBroken_append (some more : List Occurrence) :
    rulesBroken (some ++ more) = rulesBroken some ++ rulesBroken more := by
  simp [rulesBroken]

theorem rulesBroken_cons (first : Occurrence) (rest : List Occurrence) :
    rulesBroken (first :: rest) =
      (first.errors.map fun error => (error.cause, error.lexeme)) ++ rulesBroken rest := by
  simp [rulesBroken]

namespace Regions

/-- An expression breaks the same rules at both places. -/
structure AlikeForExprs (first second : Regions) : Prop where
  initializing? : second.initializing? = first.initializing?
  class? : second.class? = first.class?

/-- A statement that declares these names breaks the same rules at both places. Where it declares
none, the scopes around it do not matter. -/
structure AlikeForStmts (names : List String) (first second : Regions) : Prop where
  atFirst : first.AtStatement
  atSecond : second.AtStatement
  class? : second.class? = first.class?
  function? : second.function? = first.function?
  inLoop : second.inLoop = first.inLoop
  isLocal : names ≠ [] → second.isLocal = first.isLocal
  declared : names ≠ [] → second.declared = first.declared

namespace AlikeForStmts

variable {names : List String} {first second : Regions}

theorem forExprs (alike : AlikeForStmts names first second) : AlikeForExprs first second where
  initializing? := by
    rw [alike.atFirst.initializing?_eq_none, alike.atSecond.initializing?_eq_none]
  class? := alike.class?

theorem of_subset (alike : AlikeForStmts names first second) {fewer : List String}
    (declaring : fewer ≠ [] → names ≠ []) : AlikeForStmts fewer first second :=
  { alike with
    isLocal := fun some => alike.isLocal (declaring some)
    declared := fun some => alike.declared (declaring some) }

theorem declare (alike : AlikeForStmts names first second) (name : String) :
    AlikeForStmts names (first.declare name) (second.declare name) where
  atFirst := alike.atFirst.declare name
  atSecond := alike.atSecond.declare name
  class? := by rw [class?_declare, class?_declare, alike.class?]
  function? := by rw [function?_declare, function?_declare, alike.function?]
  inLoop := by rw [inLoop_declare, inLoop_declare, alike.inLoop]
  isLocal some := by rw [isLocal_declare, isLocal_declare, alike.isLocal some]
  declared some := by
    rw [alike.atFirst.declared_declare, alike.atSecond.declared_declare, alike.declared some]

theorem declareAll (alike : AlikeForStmts names first second) (others : List String) :
    AlikeForStmts names (first.declareAll others) (second.declareAll others) := by
  induction others generalizing first second with
  | nil => exact alike
  | cons name rest inductionHypothesis => exact inductionHypothesis (alike.declare name)

theorem initializer (alike : AlikeForStmts names first second) (declaring : names ≠ [])
    (name : String) :
    AlikeForExprs (.initializer name first.declared :: first.declare name)
      (.initializer name second.declared :: second.declare name) where
  initializing? := by simp only [Regions.initializing?, alike.declared declaring]
  class? := (alike.declare name).class?

/-- In a block all that is declared is declared at both places. -/
theorem block (alike : AlikeForStmts names first second) ⦃others : List String⦄ :
    AlikeForStmts others (.block [] :: first) (.block [] :: second) where
  atFirst := .block _ _
  atSecond := .block _ _
  class? := alike.class?
  function? := alike.function?
  inLoop := alike.inLoop
  isLocal _ := rfl
  declared _ := rfl

theorem loop (alike : AlikeForStmts names first second) :
    AlikeForStmts names (.loop :: first) (.loop :: second) where
  atFirst := .loop alike.atFirst
  atSecond := .loop alike.atSecond
  class? := alike.class?
  function? := alike.function?
  inLoop := rfl
  isLocal := alike.isLocal
  declared := alike.declared

/-- The body of a loop, and the same body in a block in the loop. -/
theorem round (alike : AlikeForStmts names first second) :
    AlikeForStmts [] (.loop :: first) (.block [] :: .loop :: second) where
  atFirst := .loop alike.atFirst
  atSecond := .block _ _
  class? := alike.class?
  function? := alike.function?
  inLoop := rfl
  isLocal none := absurd rfl none
  declared none := absurd rfl none

end AlikeForStmts

theorem alikeForStmts_refl {around : Regions} (atStatement : around.AtStatement)
    (names : List String) : AlikeForStmts names around around :=
  ⟨atStatement, atStatement, rfl, rfl, rfl, fun _ => rfl, fun _ => rfl⟩

/-- Inside a function only the class around it matters. -/
theorem AlikeForExprs.function {first second : Regions} (alike : AlikeForExprs first second)
    (isInitializer : Bool) (declared names : List String) :
    AlikeForStmts names (.function isInitializer declared :: first)
      (.function isInitializer declared :: second) where
  atFirst := .function _ _ _
  atSecond := .function _ _ _
  class? := alike.class?
  function? := rfl
  inLoop := rfl
  isLocal _ := rfl
  declared _ := rfl

theorem alikeForExprs_methods (inherits : Bool) (first second : Regions) :
    AlikeForExprs (.methods inherits :: first) (.methods inherits :: second) :=
  ⟨rfl, rfl⟩

end Regions

open Regions

/-! ## Occurrences -/

theorem rulesBroken_declaration {first second : Regions} {name other : Name}
    (alike : AlikeForStmts [name.text] first second) (same : other.text = name.text)
    {some more : List Occurrence} (rest : rulesBroken more = rulesBroken some) :
    rulesBroken (⟨.declaration other, second⟩ :: more) =
      rulesBroken (⟨.declaration name, first⟩ :: some) := by
  simp only [rulesBroken_cons, Occurrence.errors_declaration, same, rest,
    alike.isLocal (List.cons_ne_nil _ _), alike.declared (List.cons_ne_nil _ _)]
  split <;> rfl

theorem rulesBroken_parameters {first second : Regions} {parameters others : List Name}
    (alike : ∀ names, AlikeForStmts names first second)
    (same : others.map Name.text = parameters.map Name.text) :
    rulesBroken (occurrencesOfParameters second others) =
      rulesBroken (occurrencesOfParameters first parameters) := by
  induction parameters generalizing first second others with
  | nil =>
      obtain rfl : others = [] := List.map_eq_nil_iff.mp same
      rfl
  | cons parameter rest inductionHypothesis =>
      obtain ⟨other, further, rfl, sameHere, sameRest⟩ := List.map_eq_cons_iff.mp same
      simp only [occurrencesOfParameters]
      refine rulesBroken_declaration (alike _) sameHere ?_
      rw [sameHere]
      exact inductionHypothesis (fun names => (alike names).declare parameter.text) sameRest

theorem rulesBroken_superclass {first second : Regions} {name other : Name}
    {superclass superclass' : Option Reference} (same : other.text = name.text)
    (sameSuperclass : superclass'.map (·.name.text) = superclass.map (·.name.text)) :
    rulesBroken (occurrencesOfSuperclass second other superclass') =
      rulesBroken (occurrencesOfSuperclass first name superclass) := by
  cases superclass with
  | none =>
      obtain rfl : superclass' = none := Option.map_eq_none_iff.mp sameSuperclass
      rfl
  | some reference =>
      obtain ⟨reference', rfl, sameName⟩ := Option.map_eq_some_iff.mp sameSuperclass
      simp only [occurrencesOfSuperclass, rulesBroken_cons, Occurrence.errors_superclass,
        sameName, same]
      split <;> rfl

mutual

theorem Expr.Unfolds.rulesBroken {expr other : Expr} {first second : Regions}
    (unfolds : expr.Unfolds other) (alike : AlikeForExprs first second) :
    rulesBroken (other.occurrences second) = rulesBroken (expr.occurrences first) :=
  match unfolds with
  | .literal => by simp only [Expr.occurrences]
  | .grouping unfolds => by simp only [Expr.occurrences, unfolds.rulesBroken alike]
  | .variable same => by
      simp only [Expr.occurrences, rulesBroken_cons, Occurrence.errors_read, same,
        alike.initializing?]
      split <;> rfl
  | .assign _ unfolds => by
      simp only [Expr.occurrences, rulesBroken_append, unfolds.rulesBroken alike,
        rulesBroken_cons, Occurrence.errors_assign]
  | .unary unfolds => by simp only [Expr.occurrences, unfolds.rulesBroken alike]
  | .binary unfoldsLeft unfoldsRight => by
      simp only [Expr.occurrences, rulesBroken_append, unfoldsLeft.rulesBroken alike,
        unfoldsRight.rulesBroken alike]
  | .logical unfoldsLeft unfoldsRight => by
      simp only [Expr.occurrences, rulesBroken_append, unfoldsLeft.rulesBroken alike,
        unfoldsRight.rulesBroken alike]
  | .call unfolds unfoldsArguments => by
      simp only [Expr.occurrences, rulesBroken_append, unfolds.rulesBroken alike,
        unfoldsArguments.rulesBroken alike]
  | .get unfolds _ => by simp only [Expr.occurrences, unfolds.rulesBroken alike]
  | .set unfolds _ unfoldsValue => by
      simp only [Expr.occurrences, rulesBroken_append, unfolds.rulesBroken alike,
        unfoldsValue.rulesBroken alike]
  | .this => by
      simp only [Expr.occurrences, rulesBroken_cons, Occurrence.errors_this, alike.class?]
      split <;> rfl
  | .super _ => by
      simp only [Expr.occurrences, rulesBroken_cons, Occurrence.errors_super, alike.class?]
      split <;> split <;> rfl
  | .lambda unfolds => by simp only [Expr.occurrences, unfolds.rulesBroken alike false]

theorem ExprsUnfold.rulesBroken {exprs others : List Expr} {first second : Regions}
    (unfold : ExprsUnfold exprs others) (alike : AlikeForExprs first second) :
    rulesBroken (occurrencesOfExprs second others) =
      rulesBroken (occurrencesOfExprs first exprs) :=
  match unfold with
  | .nil => rfl
  | .cons unfolds unfoldRest => by
      simp only [occurrencesOfExprs, rulesBroken_append, unfolds.rulesBroken alike,
        unfoldRest.rulesBroken alike]

theorem OptionalExprUnfolds.rulesBroken {expr other : Option Expr} {first second : Regions}
    (unfolds : OptionalExprUnfolds expr other) (alike : AlikeForExprs first second) :
    rulesBroken (occurrencesOfOptionalExpr second other) =
      rulesBroken (occurrencesOfOptionalExpr first expr) :=
  match unfolds with
  | .none => rfl
  | .some unfolds => unfolds.rulesBroken alike

theorem Stmt.Unfolds.rulesBroken {stmt other : Stmt} {first second : Regions}
    (unfolds : stmt.Unfolds other) (alike : AlikeForStmts stmt.declares first second) :
    rulesBroken (other.occurrences second) = rulesBroken (stmt.occurrences first) :=
  match unfolds with
  | .expression unfolds => by simp only [Stmt.occurrences, unfolds.rulesBroken alike.forExprs]
  | .print unfolds => by simp only [Stmt.occurrences, unfolds.rulesBroken alike.forExprs]
  | .var same unfolds => by
      simp only [Stmt.declares] at alike
      simp only [Stmt.occurrences]
      refine rulesBroken_declaration alike same ?_
      rw [same]
      exact unfolds.rulesBroken (alike.initializer (List.cons_ne_nil _ _) _)
  | .block unfold => by
      simp only [Stmt.occurrences, unfold.rulesBroken alike.block]
  | .conditional unfoldsCondition unfoldsThen unfoldsElse => by
      simp only [Stmt.declares] at alike
      have alikeThen := alike.of_subset fun some => List.append_ne_nil_of_left_ne_nil some _
      have alikeElse := alike.of_subset fun some => List.append_ne_nil_of_right_ne_nil _ some
      simp only [Stmt.occurrences, rulesBroken_append, unfoldsThen.declares,
        unfoldsCondition.rulesBroken alike.forExprs, unfoldsThen.rulesBroken alikeThen,
        unfoldsElse.rulesBroken (alikeElse.declareAll _)]
  | .loop unfoldsCondition unfoldsBody unfoldsIncrement => by
      simp only [Stmt.declares] at alike
      simp only [Stmt.occurrences, rulesBroken_append, unfoldsBody.declares,
        unfoldsCondition.rulesBroken alike.forExprs, unfoldsBody.rulesBroken alike.loop,
        unfoldsIncrement.rulesBroken (alike.declareAll _).forExprs]
  | .writtenOut unfoldsCondition unfoldsBody unfoldsIncrement undeclaring _ => by
      simp only [Stmt.declares] at alike
      have alikeRound := alike.round.of_subset fun some => absurd undeclaring some
      have alikeIncrement : AlikeForExprs first (.block [] :: .loop :: second) :=
        ⟨alike.forExprs.initializing?.symm ▸ alike.atFirst.initializing?_eq_none.symm, alike.class?⟩
      simp only [Stmt.occurrences, occurrencesOfStmts, occurrencesOfOptionalExpr,
        rulesBroken_append, unfoldsBody.declares, undeclaring, Regions.declareAll, List.foldl_nil,
        unfoldsCondition.rulesBroken alike.forExprs, unfoldsBody.rulesBroken alikeRound,
        unfoldsIncrement.rulesBroken alikeIncrement, List.append_nil]
  | .function unfolds => by
      simp only [Stmt.declares] at alike
      simp only [Stmt.occurrences]
      refine rulesBroken_declaration alike unfolds.name ?_
      rw [unfolds.name]
      exact unfolds.rulesBroken (alike.declare _).forExprs false
  | .return unfolds => by
      have sameValue : ∀ {value other : Option Expr}, OptionalExprUnfolds value other →
          other.isSome = value.isSome := by
        intro value other unfolds
        cases unfolds <;> rfl
      simp only [Stmt.occurrences, rulesBroken_cons, Occurrence.errors_return, alike.function?,
        sameValue unfolds, unfolds.rulesBroken alike.forExprs]
      split <;> split <;> rfl
  | .class same sameSuperclass unfold => by
      have sameInherits := congrArg Option.isSome sameSuperclass
      rw [Option.isSome_map, Option.isSome_map] at sameInherits
      simp only [Stmt.declares] at alike
      simp only [Stmt.occurrences]
      refine rulesBroken_declaration alike same ?_
      rw [rulesBroken_append, rulesBroken_append, sameInherits,
        rulesBroken_superclass same sameSuperclass,
        unfold.rulesBroken (alikeForExprs_methods _ (first.declare _) _)]
  | .break => by
      simp only [Stmt.occurrences, rulesBroken_cons, Occurrence.errors_break, alike.inLoop]
      split <;> rfl
  | .continue => by
      simp only [Stmt.occurrences, rulesBroken_cons, Occurrence.errors_continue, alike.inLoop]
      split <;> rfl

theorem OptionalStmtUnfolds.rulesBroken {stmt other : Option Stmt} {first second : Regions}
    (unfolds : OptionalStmtUnfolds stmt other)
    (alike : AlikeForStmts (declaresOfOptionalStmt stmt) first second) :
    rulesBroken (occurrencesOfOptionalStmt second other) =
      rulesBroken (occurrencesOfOptionalStmt first stmt) :=
  match unfolds with
  | .none => rfl
  | .some unfolds => unfolds.rulesBroken alike

theorem StmtsUnfold.rulesBroken {stmts others : List Stmt} {first second : Regions}
    (unfold : StmtsUnfold stmts others)
    (alike : ∀ names, AlikeForStmts names first second) :
    rulesBroken (occurrencesOfStmts second others) =
      rulesBroken (occurrencesOfStmts first stmts) :=
  match unfold with
  | .nil => rfl
  | .cons unfolds unfoldRest => by
      simp only [occurrencesOfStmts, rulesBroken_append, unfolds.declares,
        unfolds.rulesBroken (alike _),
        unfoldRest.rulesBroken fun names => (alike names).declareAll _]

theorem FunctionUnfolds.rulesBroken {function other : FunctionDeclaration}
    {first second : Regions} (unfolds : FunctionUnfolds function other)
    (alike : AlikeForExprs first second) (isInitializer : Bool) :
    rulesBroken (occurrencesOfFunction second isInitializer other) =
      rulesBroken (occurrencesOfFunction first isInitializer function) :=
  match function, other, unfolds with
  | ⟨_, _, _, _⟩, _, .mk _ sameParameters unfold => by
      simp only [occurrencesOfFunction, rulesBroken_append, sameParameters,
        rulesBroken_parameters (alike.function isInitializer []) sameParameters,
        unfold.rulesBroken (alike.function isInitializer _)]

theorem FunctionsUnfold.rulesBroken {functions others : List FunctionDeclaration}
    {first second : Regions} (unfold : FunctionsUnfold functions others)
    (alike : AlikeForExprs first second) :
    rulesBroken (occurrencesOfMethods second others) =
      rulesBroken (occurrencesOfMethods first functions) :=
  match unfold with
  | .nil => rfl
  | .cons unfolds unfoldRest => by
      simp only [occurrencesOfMethods, rulesBroken_append, unfolds.isInitializer,
        unfolds.rulesBroken alike, unfoldRest.rulesBroken alike]

end

theorem Program.Unfolds.rulesBroken {program other : Program} (unfolds : program.Unfolds other)
    (known : List String) :
    rulesBroken (other.occurrences known) = rulesBroken (program.occurrences known) :=
  StmtsUnfold.rulesBroken unfolds (alikeForStmts_refl (.program known))

/-! ## Bound trees -/

mutual

theorem Stmt.continues_addressed (context : Context) (inClass : Bool) : (stmt : Stmt) →
    (stmt.addressed context inClass).continues = stmt.continues
  | .expression _ _ => by simp only [Stmt.addressed, Stmt.continues]
  | .print _ _ => by simp only [Stmt.addressed, Stmt.continues]
  | .var _ _ _ => by simp only [Stmt.addressed, Stmt.continues]
  | .block statements _ => by
      simp only [Stmt.addressed, Stmt.continues, continuesAny_addressed _ inClass statements]
  | .conditional _ thenBranch elseBranch _ => by
      simp only [Stmt.addressed, Stmt.continues, Stmt.continues_addressed context inClass thenBranch,
        continuesOptional_addressed _ inClass elseBranch]
  | .loop _ _ _ _ => by simp only [Stmt.addressed, Stmt.continues]
  | .function _ _ => by simp only [Stmt.addressed, Stmt.continues]
  | .return _ _ => by simp only [Stmt.addressed, Stmt.continues]
  | .class _ _ _ _ => by simp only [Stmt.addressed, Stmt.continues]
  | .break _ => by simp only [Stmt.addressed, Stmt.continues]
  | .continue _ => by simp only [Stmt.addressed, Stmt.continues]

theorem continuesOptional_addressed (context : Context) (inClass : Bool) :
    (stmt : Option Stmt) →
    continuesOptional (addressedOptionalStmt context inClass stmt) = continuesOptional stmt
  | none => rfl
  | some stmt => stmt.continues_addressed context inClass

theorem continuesAny_addressed (context : Context) (inClass : Bool) : (stmts : List Stmt) →
    continuesAny (addressedStmts context inClass stmts) = continuesAny stmts
  | [] => rfl
  | stmt :: rest => by
      simp only [addressedStmts, continuesAny, stmt.continues_addressed context inClass,
        continuesAny_addressed _ inClass rest]

end

mutual

theorem Expr.Unfolds.addressed {expr other : Expr} (unfolds : expr.Unfolds other)
    (first second : Context) (inFirst inSecond : Bool) :
    (expr.addressed first inFirst).Unfolds (other.addressed second inSecond) :=
  match unfolds with
  | .literal => by simp only [Expr.addressed]; exact .literal
  | .grouping unfolds => by
      simp only [Expr.addressed]
      exact .grouping (unfolds.addressed _ _ _ _)
  | .variable same => by
      simp only [Expr.addressed]
      exact .variable same
  | .assign same unfolds => by
      simp only [Expr.addressed]
      exact .assign same (unfolds.addressed _ _ _ _)
  | .unary unfolds => by
      simp only [Expr.addressed]
      exact .unary (unfolds.addressed _ _ _ _)
  | .binary unfoldsLeft unfoldsRight => by
      simp only [Expr.addressed]
      exact .binary (unfoldsLeft.addressed _ _ _ _) (unfoldsRight.addressed _ _ _ _)
  | .logical unfoldsLeft unfoldsRight => by
      simp only [Expr.addressed]
      exact .logical (unfoldsLeft.addressed _ _ _ _) (unfoldsRight.addressed _ _ _ _)
  | .call unfolds unfoldsArguments => by
      simp only [Expr.addressed]
      exact .call (unfolds.addressed _ _ _ _) (unfoldsArguments.addressed _ _ _ _)
  | .get unfolds same => by
      simp only [Expr.addressed]
      exact .get (unfolds.addressed _ _ _ _) same
  | .set unfolds same unfoldsValue => by
      simp only [Expr.addressed]
      exact .set (unfolds.addressed _ _ _ _) same (unfoldsValue.addressed _ _ _ _)
  | .this => by
      simp only [Expr.addressed]
      exact .this
  | .super same => by
      simp only [Expr.addressed]
      exact .super same
  | .lambda unfolds => by
      simp only [Expr.addressed]
      exact .lambda (unfolds.addressed _ _ _ _)

theorem ExprsUnfold.addressed {exprs others : List Expr} (unfold : ExprsUnfold exprs others)
    (first second : Context) (inFirst inSecond : Bool) :
    ExprsUnfold (addressedExprs first inFirst exprs) (addressedExprs second inSecond others) :=
  match unfold with
  | .nil => .nil
  | .cons unfolds unfoldRest =>
      .cons (unfolds.addressed _ _ _ _) (unfoldRest.addressed _ _ _ _)

theorem OptionalExprUnfolds.addressed {expr other : Option Expr}
    (unfolds : OptionalExprUnfolds expr other) (first second : Context)
    (inFirst inSecond : Bool) :
    OptionalExprUnfolds (addressedOptionalExpr first inFirst expr)
      (addressedOptionalExpr second inSecond other) :=
  match unfolds with
  | .none => .none
  | .some unfolds => .some (unfolds.addressed _ _ _ _)

theorem Stmt.Unfolds.addressed {stmt other : Stmt} (unfolds : stmt.Unfolds other)
    (first second : Context) (inFirst inSecond : Bool) :
    (stmt.addressed first inFirst).Unfolds (other.addressed second inSecond) :=
  match unfolds with
  | .expression unfolds => by
      simp only [Stmt.addressed]
      exact .expression (unfolds.addressed _ _ _ _)
  | .print unfolds => by
      simp only [Stmt.addressed]
      exact .print (unfolds.addressed _ _ _ _)
  | .var same unfolds => by
      simp only [Stmt.addressed]
      exact .var same (unfolds.addressed _ _ _ _)
  | .block unfold => by
      simp only [Stmt.addressed]
      exact .block (unfold.addressed _ _ _ _)
  | .conditional unfoldsCondition unfoldsThen unfoldsElse => by
      simp only [Stmt.addressed]
      exact .conditional (unfoldsCondition.addressed _ _ _ _) (unfoldsThen.addressed _ _ _ _)
        (unfoldsElse.addressed _ _ _ _)
  | .loop unfoldsCondition unfoldsBody unfoldsIncrement => by
      simp only [Stmt.addressed]
      exact .loop (unfoldsCondition.addressed _ _ _ _) (unfoldsBody.addressed _ _ _ _)
        (unfoldsIncrement.addressed _ _ _ _)
  | .writtenOut unfoldsCondition unfoldsBody unfoldsIncrement undeclaring notContinuing => by
      simp only [Stmt.addressed, addressedStmts, addressedOptionalExpr]
      exact .writtenOut (unfoldsCondition.addressed _ _ _ _) (unfoldsBody.addressed _ _ _ _)
        (unfoldsIncrement.addressed _ _ _ _) ((Stmt.declares_addressed _ _ _).trans undeclaring)
        ((Stmt.continues_addressed _ _ _).trans notContinuing)
  | .function unfolds => by
      simp only [Stmt.addressed]
      exact .function (unfolds.addressed _ _ _ _)
  | .return unfolds => by
      simp only [Stmt.addressed]
      exact .return (unfolds.addressed _ _ _ _)
  | .class same sameSuperclass unfold => by
      simp only [Stmt.addressed]
      refine .class same ?_ (unfold.addressed _ _)
      simpa only [Option.map_map, Function.comp_def, Reference.addressed] using sameSuperclass
  | .break => by
      simp only [Stmt.addressed]
      exact .break
  | .continue => by
      simp only [Stmt.addressed]
      exact .continue

theorem OptionalStmtUnfolds.addressed {stmt other : Option Stmt}
    (unfolds : OptionalStmtUnfolds stmt other) (first second : Context)
    (inFirst inSecond : Bool) :
    OptionalStmtUnfolds (addressedOptionalStmt first inFirst stmt)
      (addressedOptionalStmt second inSecond other) :=
  match unfolds with
  | .none => .none
  | .some unfolds => .some (unfolds.addressed _ _ _ _)

theorem StmtsUnfold.addressed {stmts others : List Stmt} (unfold : StmtsUnfold stmts others)
    (first second : Context) (inFirst inSecond : Bool) :
    StmtsUnfold (addressedStmts first inFirst stmts) (addressedStmts second inSecond others) :=
  match unfold with
  | .nil => .nil
  | .cons unfolds unfoldRest =>
      .cons (unfolds.addressed _ _ _ _) (unfoldRest.addressed _ _ _ _)

theorem FunctionUnfolds.addressed {function other : FunctionDeclaration}
    (unfolds : FunctionUnfolds function other) (first second : Context)
    (inFirst inSecond : Bool) :
    FunctionUnfolds (addressedFunction first inFirst function)
      (addressedFunction second inSecond other) :=
  match function, other, unfolds with
  | ⟨_, _, _, _⟩, _, .mk same sameParameters unfold => by
      simp only [addressedFunction]
      exact .mk same sameParameters (unfold.addressed _ _ _ _)

theorem FunctionsUnfold.addressed {functions others : List FunctionDeclaration}
    (unfold : FunctionsUnfold functions others) (first second : Context) :
    FunctionsUnfold (addressedFunctions first functions) (addressedFunctions second others) :=
  match unfold with
  | .nil => .nil
  | .cons unfolds unfoldRest =>
      .cons (unfolds.addressed _ _ _ _) (unfoldRest.addressed _ _)

end

/-! ## Resolvers -/

/-- A program and one in which loops of it are written out break the same rules, about the same
words and in the same order, and the bound trees compare as the trees do. -/
theorem Program.Unfolds.resolve {program other : Program} (unfolds : program.Unfolds other)
    {names : List String} {resolver : Resolver} (awaits : Awaits names resolver) :
    (resolver.resolve program).program.Unfolds (resolver.resolve other).program ∧
      (resolver.resolve other).errors.map (fun error => (error.cause, error.lexeme)) =
        (resolver.resolve program).errors.map fun error => (error.cause, error.lexeme) := by
  obtain ⟨bound, errors, _⟩ := awaits.resolve program
  obtain ⟨boundOther, errorsOther, _⟩ := awaits.resolve other
  rw [bound, boundOther, errors, errorsOther]
  exact ⟨StmtsUnfold.addressed unfolds _ _ _ _, unfolds.rulesBroken names⟩

/-- They are accepted alike. -/
theorem Program.Unfolds.accepted_iff {program other : Program} (unfolds : program.Unfolds other)
    {names : List String} {resolver : Resolver} (awaits : Awaits names resolver) :
    (resolver.resolve other).errors = [] ↔ (resolver.resolve program).errors = [] := by
  have same := (unfolds.resolve awaits).2
  rw [← List.map_eq_nil_iff, same, List.map_eq_nil_iff]

end Lox
