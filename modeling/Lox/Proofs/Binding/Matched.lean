import Mathlib.Data.List.Forall2
import Lox.Proofs.Binding.Placement

/-!
Contract: the occurrences of one tree, listed from two places.

If two places are related, and every region that opens and every declaration keeps them
related, then the occurrences of a tree come in pairs: the same node at related places.
With equality for the relation, this is induction over the places in a tree.

Main statement: `matched_occurrences`.

Owns: relations between places. Does not own: which relations there are.
-/

set_option autoImplicit false

namespace Lox

/-- Places stay related where regions open and names are declared. -/
structure Kept (related : Regions → Regions → Prop) : Prop where
  declare : ∀ ⦃first second : Regions⦄, first.AtStatement → second.AtStatement →
    related first second → ∀ name, related (first.declare name) (second.declare name)
  initializer : ∀ ⦃first second : Regions⦄, first.AtStatement → second.AtStatement →
    related first second → ∀ name,
      related (.initializer name first.declared :: first.declare name)
        (.initializer name second.declared :: second.declare name)
  block : ∀ ⦃first second : Regions⦄, related first second →
    related (.block [] :: first) (.block [] :: second)
  function : ∀ ⦃first second : Regions⦄, related first second → ∀ isInitializer names,
    related (.function isInitializer names :: first) (.function isInitializer names :: second)
  methods : ∀ ⦃first second : Regions⦄, related first second → ∀ inherits,
    related (.methods inherits :: first) (.methods inherits :: second)
  loop : ∀ ⦃first second : Regions⦄, related first second →
    related (.loop :: first) (.loop :: second)

/-- The same nodes in the same order, at related places. -/
def Matched (related : Regions → Regions → Prop) (occurrences others : List Occurrence) : Prop :=
  List.Forall₂ (fun one other => one.node = other.node ∧ related one.around other.around)
    occurrences others

section

variable {related : Regions → Regions → Prop} {first second : Regions}

theorem Matched.append {some more others further : List Occurrence}
    (one : Matched related some others) (two : Matched related more further) :
    Matched related (some ++ more) (others ++ further) :=
  List.rel_append one two

theorem matched_nil : Matched related [] [] :=
  List.Forall₂.nil

theorem Matched.cons {some others : List Occurrence} (here : related first second) (node : Node)
    (rest : Matched related some others) :
    Matched related (⟨node, first⟩ :: some) (⟨node, second⟩ :: others) :=
  List.Forall₂.cons ⟨rfl, here⟩ rest

theorem matched_singleton (here : related first second) (node : Node) :
    Matched related [⟨node, first⟩] [⟨node, second⟩] :=
  matched_nil.cons here node

theorem matched_superclass (here : related first second) (className : Name)
    (superclass : Option Reference) :
    Matched related (occurrencesOfSuperclass first className superclass)
      (occurrencesOfSuperclass second className superclass) := by
  cases superclass with
  | none => exact matched_nil
  | some reference => exact matched_singleton here _

variable (kept : Kept related)

include kept

theorem Kept.declareAll (atFirst : first.AtStatement) (atSecond : second.AtStatement)
    (here : related first second) (names : List String) :
    related (first.declareAll names) (second.declareAll names) := by
  induction names generalizing first second with
  | nil => exact here
  | cons name rest inductionHypothesis =>
      exact inductionHypothesis (atFirst.declare name) (atSecond.declare name)
        (kept.declare atFirst atSecond here name)

theorem matched_parameters (atFirst : first.AtStatement) (atSecond : second.AtStatement)
    (here : related first second) (parameters : List Name) :
    Matched related (occurrencesOfParameters first parameters)
      (occurrencesOfParameters second parameters) := by
  induction parameters generalizing first second with
  | nil => exact matched_nil
  | cons parameter rest inductionHypothesis =>
      have behind := kept.declare atFirst atSecond here parameter.text
      exact (inductionHypothesis (atFirst.declare parameter.text)
        (atSecond.declare parameter.text) behind).cons here _

end

variable {related : Regions → Regions → Prop}

mutual

theorem Expr.matched_occurrences (kept : Kept related) {first second : Regions}
    (here : related first second) :
    (expr : Expr) → Matched related (expr.occurrences first) (expr.occurrences second)
  | .literal _ _ => matched_nil
  | .grouping inner _ => inner.matched_occurrences kept here
  | .variable _ => matched_singleton here _
  | .assign _ value _ => (value.matched_occurrences kept here).append (matched_singleton here _)
  | .unary _ operand _ => operand.matched_occurrences kept here
  | .binary _ left right _ =>
      (left.matched_occurrences kept here).append (right.matched_occurrences kept here)
  | .logical _ left right _ =>
      (left.matched_occurrences kept here).append (right.matched_occurrences kept here)
  | .call callee arguments _ =>
      (callee.matched_occurrences kept here).append (matched_occurrencesOfExprs kept here arguments)
  | .get object _ => object.matched_occurrences kept here
  | .set object _ value _ =>
      (value.matched_occurrences kept here).append (object.matched_occurrences kept here)
  | .this _ _ => matched_singleton here _
  | .super _ _ _ => matched_singleton here _
  | .lambda function => matched_occurrencesOfFunction kept here false function

theorem matched_occurrencesOfExprs (kept : Kept related) {first second : Regions}
    (here : related first second) :
    (exprs : List Expr) →
    Matched related (occurrencesOfExprs first exprs) (occurrencesOfExprs second exprs)
  | [] => matched_nil
  | expr :: rest =>
      (expr.matched_occurrences kept here).append (matched_occurrencesOfExprs kept here rest)

theorem matched_occurrencesOfOptionalExpr (kept : Kept related) {first second : Regions}
    (here : related first second) : (expr : Option Expr) →
    Matched related (occurrencesOfOptionalExpr first expr) (occurrencesOfOptionalExpr second expr)
  | none => matched_nil
  | some expr => expr.matched_occurrences kept here

theorem Stmt.matched_occurrences (kept : Kept related) {first second : Regions}
    (atFirst : first.AtStatement) (atSecond : second.AtStatement)
    (here : related first second) : (stmt : Stmt) →
    Matched related (stmt.occurrences first) (stmt.occurrences second)
  | .expression value _ => value.matched_occurrences kept here
  | .print value _ => value.matched_occurrences kept here
  | .var name initializer _ =>
      (matched_occurrencesOfOptionalExpr kept (kept.initializer atFirst atSecond here name.text)
        initializer).cons here _
  | .block statements _ =>
      matched_occurrencesOfStmts kept (.block _ _) (.block _ _) (kept.block here) statements
  | .conditional condition thenBranch elseBranch _ =>
      (condition.matched_occurrences kept here).append
        ((thenBranch.matched_occurrences kept atFirst atSecond here).append
          (matched_occurrencesOfOptionalStmt kept (atFirst.declareAll _) (atSecond.declareAll _)
            (kept.declareAll atFirst atSecond here thenBranch.declares) elseBranch))
  | .loop condition body increment _ =>
      (condition.matched_occurrences kept here).append
        ((body.matched_occurrences kept (.loop atFirst) (.loop atSecond) (kept.loop here)).append
          (matched_occurrencesOfOptionalExpr kept
            (kept.declareAll atFirst atSecond here body.declares) increment))
  | .function declaration _ =>
      (matched_occurrencesOfFunction kept (kept.declare atFirst atSecond here declaration.name.text)
        false declaration).cons here _
  | .return value _ => (matched_occurrencesOfOptionalExpr kept here value).cons here _
  | .class name superclass methods _ => by
      have behind := kept.declare atFirst atSecond here name.text
      have inside :=
        matched_occurrencesOfMethods kept (kept.methods behind superclass.isSome) methods
      exact ((matched_superclass behind name superclass).append inside).cons here _
  | .break _ => matched_singleton here _
  | .continue _ => matched_singleton here _

theorem matched_occurrencesOfOptionalStmt (kept : Kept related) {first second : Regions}
    (atFirst : first.AtStatement) (atSecond : second.AtStatement)
    (here : related first second) : (stmt : Option Stmt) →
    Matched related (occurrencesOfOptionalStmt first stmt) (occurrencesOfOptionalStmt second stmt)
  | none => matched_nil
  | some stmt => stmt.matched_occurrences kept atFirst atSecond here

theorem matched_occurrencesOfStmts (kept : Kept related) {first second : Regions}
    (atFirst : first.AtStatement) (atSecond : second.AtStatement)
    (here : related first second) : (stmts : List Stmt) →
    Matched related (occurrencesOfStmts first stmts) (occurrencesOfStmts second stmts)
  | [] => matched_nil
  | stmt :: rest =>
      (stmt.matched_occurrences kept atFirst atSecond here).append
        (matched_occurrencesOfStmts kept (atFirst.declareAll _) (atSecond.declareAll _)
          (kept.declareAll atFirst atSecond here stmt.declares) rest)

theorem matched_occurrencesOfFunction (kept : Kept related) {first second : Regions}
    (here : related first second) (isInitializer : Bool) : (function : FunctionDeclaration) →
    Matched related (occurrencesOfFunction first isInitializer function)
      (occurrencesOfFunction second isInitializer function)
  | ⟨_, parameters, body, _⟩ =>
      (matched_parameters kept (.function _ _ _) (.function _ _ _)
        (kept.function here isInitializer []) parameters).append
        (matched_occurrencesOfStmts kept (.function _ _ _) (.function _ _ _)
          (kept.function here isInitializer (parameters.map Name.text)) body)

theorem matched_occurrencesOfMethods (kept : Kept related) {first second : Regions}
    (here : related first second) :
    (methods : List FunctionDeclaration) →
    Matched related (occurrencesOfMethods first methods) (occurrencesOfMethods second methods)
  | [] => matched_nil
  | method :: rest =>
      (matched_occurrencesOfFunction kept here method.isInitializer method).append
        (matched_occurrencesOfMethods kept here rest)

end

end Lox
