import Lox.Proofs.Grammar.Onward

/-!
Contract: rule by rule, how far a parser looks.

No expression takes the semicolon behind it, and neither does anything that a brace closes. A
statement may take it as its last token, and then only an `else` could belong to it still.

Main statement: `contained_constructs`.

Owns: the rules of the grammar. Does not own: the steps of the parser, programs.
-/

set_option autoImplicit false

namespace Lox.Grammar

open Lox.Parser

/-! ## Expressions -/

section Expressions

variable {inner operand : Parser Expr} {item : Parser Stmt}

theorem contained_operands (level : Level) (contained : Contained false operand) (bound : Nat)
    (left : Expr) : Contained false (operands level operand bound left) := by
  induction bound generalizing left with
  | zero => exact .fail rfl
  | succ bound inductionHypothesis =>
      have noOperator : level.connective? (.symbol .semicolon) = none := by cases level <;> rfl
      refine (Contained.optionalAs noOperator).bind fun found => ?_
      match found with
      | none => exact .pure _
      | some (connective, span) => exact contained.bind fun right => inductionHypothesis _

theorem contained_operations (contained : Contained false operand) (bound : Nat)
    (levels : List Level) : Contained false (operations bound operand levels) := by
  induction levels with
  | nil => exact contained
  | cons level tighter inductionHypothesis =>
      exact inductionHypothesis.bind fun first =>
        contained_operands level inductionHypothesis bound first

theorem contained_assignment {left value : Parser Expr} (containedLeft : Contained false left)
    (contained : Contained false value) : Contained false (assignment left value) := by
  refine containedLeft.bind fun target =>
    (Contained.optionalSymbol (by decide)).bind fun found => ?_
  cases found with
  | none => exact .pure _
  | some equals =>
      refine contained.bind fun value => ?_
      cases target with
      | «variable» reference => exact .pure _
      | get object name => exact .pure _
      | _ => exact (Contained.note rfl _).bind fun _ => .pure _

theorem contained_prefixed {tighter : Parser Expr} (contained : Contained false operand)
    (containedTighter : Contained false tighter) : Contained false (prefixed operand tighter) := by
  refine (Contained.optionalAs rfl).bind fun found => ?_
  match found with
  | none => exact containedTighter
  | some (operator, span) => exact contained.bind fun _ => .pure _

theorem contained_suffixes (contained : Contained false inner) (bound : Nat) (head : Expr) :
    Contained false (suffixes inner bound head) := by
  induction bound generalizing head with
  | zero => exact .fail rfl
  | succ bound inductionHypothesis =>
      refine (Contained.optionalSymbol (by decide)).bind fun opening => ?_
      cases opening with
      | some _ =>
          exact (contained.parenthesizedItems "arguments" bound).bind fun _ => inductionHypothesis _
      | none =>
          refine (Contained.optionalSymbol (by decide)).bind fun dot => ?_
          cases dot with
          | none => exact .pure _
          | some _ =>
              have word : Contained false (require Token.Kind.isIdentifier .property) :=
                .require rfl (by simp [Token.Kind.isIdentifier])
              exact word.bind fun _ => inductionHypothesis _

/-- The closing brace is required, so a semicolon has not been the last token. -/
theorem contained_braced {α β : Type} {items : Parser α} (onward : Onward items) (place : String)
    (finish : α → β) :
    Contained false (do
      let found ← items
      let _ ← symbol .rightBrace place
      return finish found) :=
  onward.bind_needing
    (fun _ => (Contained.symbol place (by decide)).bind fun _ => .pure _)
    fun _ => Needs.bind fun _ finds => nomatch finds

theorem contained_blockRest (onward : Onward item) (bound : Nat) :
    Contained false (blockRest item bound) :=
  contained_braced (onward.itemsUntil _ bound) "after block" id

/-- A block needs its closing brace. -/
theorem needs_blockRest (item : Parser Stmt) (bound : Nat) : Needs (blockRest item bound) := by
  cases bound with
  | zero => exact fun _ finds => nomatch finds
  | succ bound => exact fun _ finds => nomatch finds

theorem contained_functionBody (onward : Onward item) (role : String) (bound : Nat) :
    Contained false (functionBody role item bound) :=
  (Contained.symbol _ (by decide)).bind fun _ => contained_blockRest onward bound

theorem contained_parameters (bound : Nat) : Contained false (parameters bound) :=
  ((Contained.name "parameter").parenthesizedItems "parameters" bound).bind fun _ => .pure _

theorem contained_lambdaRest (word : Name) (onward : Onward item) (bound : Nat) :
    Contained false (lambdaRest word item bound) :=
  (Contained.symbol _ (by decide)).bind fun _ => (contained_parameters bound).bind fun _ =>
    (contained_functionBody onward "function" bound).bind fun _ => .pure _

theorem contained_groupingRest (contained : Contained false inner) (span : Span) :
    Contained false (groupingRest inner span) :=
  contained.bind fun _ => (Contained.symbol _ (by decide)).bind fun _ => .pure _

theorem contained_superRest (span : Span) : Contained false (superRest span) :=
  (Contained.symbol _ (by decide)).bind fun _ => (Contained.name _).bind fun _ => .pure _

theorem contained_primary (contained : Contained false inner) (onward : Onward item)
    (bound : Nat) : Contained false (primary inner item bound) := by
  have missing : Contained false (fail .expression : Parser Expr) := .fail rfl
  refine .bind_peek missing fun token rest => ?_
  have taken {kind : Token.Kind} (is : token.kind = kind) (other : kind ≠ .symbol .semicolon) :
      ContainedAt false (token :: rest) skip := Contained.skip_of_ne (is ▸ other)
  simp only
  split
  all_goals first
    | exact (taken ‹_› (by simp)).bind fun _ => .pure _
    | exact (taken ‹_› (by simp)).bind fun _ => contained_superRest _
    | exact (taken ‹_› (by simp)).bind fun _ => contained_groupingRest contained _
    | exact (taken ‹_› (by simp)).bind fun _ => contained_lambdaRest _ onward bound
    | exact missing _

theorem contained_suffixed {head : Parser Expr} (containedHead : Contained false head)
    (contained : Contained false inner) (bound : Nat) :
    Contained false (suffixed head inner bound) :=
  containedHead.bind fun head => contained_suffixes contained bound head

end Expressions

/-! ## Statements -/

section Statements

variable {expression : Parser Expr} {statement declaration : Parser Stmt}

theorem contained_semicolon (place : String) : Contained true (semicolon place) :=
  .require rfl fun _ => rfl

/-- The value behind a semicolon is settled. -/
theorem contained_closed (place : String) (tree : Stmt) :
    Contained true (semicolon place >>= fun _ => pure tree) :=
  (contained_semicolon place).bind_ending (fun _ => .pure _) fun _ => ⟨_, fun _ _ => rfl⟩

theorem contained_jumpStatement (word : Keyword) (node : Span → Stmt) :
    Contained true (jumpStatement word node) :=
  Contained.skip.bind_needing (fun span => contained_closed _ (node span))
    fun _ => Needs.bind fun _ finds => nomatch finds

section OfExpressions

variable (contained : Contained false expression) (needs : Needs expression)
include contained

theorem contained_expressionStatement : Contained true (expressionStatement expression) :=
  Contained.nextSpan.bind fun span => contained.bind fun value =>
    contained_closed _ (.expression value span)

theorem contained_varDeclaration : Contained true (varDeclaration expression) := by
  refine Contained.skip.bind_needing (fun span => (Contained.name _).bind fun declared =>
    (Contained.optionalSymbol (by decide)).bind fun equals => ?_)
    fun _ => Needs.bind fun _ finds => nomatch finds
  have ending (value : Option Expr) := contained_closed "after variable declaration"
    (.var declared value span)
  cases equals with
  | none => exact (Contained.pure none).bind ending
  | some _ => exact (contained.map some).bind ending

theorem onward_forInitializer : Onward (forInitializer expression) := by
  have semicolon : Contained true (optionalSymbol .semicolon) := .optional fun _ => rfl
  refine semicolon.onward.bind fun found => ?_
  cases found with
  | some _ => exact .pure none
  | none =>
      exact (Contained.sees _).onward.bind fun _ => .ite
        ((contained_varDeclaration contained).onward.bind fun _ => .pure _)
        ((contained_expressionStatement contained).onward.bind fun _ => .pure _)

theorem contained_forCondition : Contained false (forCondition expression) :=
  (Contained.sees _).bind fun _ => .ite (Contained.nextSpan.bind fun _ => .pure _) contained

theorem contained_forIncrement : Contained false (forIncrement expression) :=
  (Contained.sees _).bind fun _ => .ite (.pure none) (contained.map some)

include needs

theorem contained_printStatement : Contained true (printStatement expression) :=
  Contained.skip.bind_needing
    (fun span => contained.bind fun value => contained_closed _ (.print value span))
    fun _ => needs.bind

theorem contained_returnStatement : Contained true (returnStatement expression) := by
  have ending (span : Span) (value : Option Expr) := contained_closed "after return value"
    (.return value span)
  exact Contained.skip.bind_needing
    (fun span => (Contained.sees _).bind fun _ =>
      .ite ((Contained.pure none).bind (ending span)) ((contained.map some).bind (ending span)))
    -- Where no token is left there is no semicolon, so a value is wanted.
    fun _ => needs.bind.bind

end OfExpressions

section OfStatements

variable (containedExpression : Contained false expression) (needs : Needs expression)
  (contained : Contained true statement)
include containedExpression contained

/-- After the branch an `else` is all that could follow. -/
theorem contained_ifStatement : Contained true (ifStatement expression statement) := by
  refine Contained.skip.bind_needing (fun span => (Contained.symbol _ (by decide)).bind fun _ =>
    containedExpression.bind fun condition => (Contained.symbol _ (by decide)).bind fun _ => ?_)
    fun _ => Needs.bind fun _ finds => nomatch finds
  have word : Contained false (optional (·.isKeyword .else)) := .optional nofun
  refine contained.bind_ending (fun thenBranch => word.bind fun found => ?_) fun thenBranch =>
    ⟨.conditional condition thenBranch none span, fun more avoids => ?_⟩
  · cases found with
    | none => exact (Contained.pure none).bind fun _ => .pure _
    | some _ =>
        have other : Contained true (some <$> statement) :=
          contained.bind_ending (fun _ => .pure _) fun tree => ⟨some tree, fun _ _ => rfl⟩
        exact other.bind_ending (fun _ => .pure _) fun _ => ⟨_, fun _ _ => rfl⟩
  · have absent : Parser.optional (·.isKeyword .else) more = ⟨.ok none, more, []⟩ :=
      reads_optional.mpr (.inr ⟨avoids, rfl, rfl⟩)
    rw [bind_of_ok absent]
    rfl

theorem contained_whileStatement : Contained true (whileStatement expression statement) :=
  Contained.skip.bind_needing (fun span => (Contained.symbol _ (by decide)).bind fun _ =>
    containedExpression.bind fun condition => (Contained.symbol _ (by decide)).bind fun _ =>
      contained.bind_ending (fun _ => .pure _) fun _ => ⟨_, fun _ _ => rfl⟩)
    fun _ => Needs.bind fun _ finds => nomatch finds

include needs

theorem contained_forStatement : Contained true (forStatement expression statement) :=
  Contained.skip.bind_needing (fun span => (Contained.symbol _ (by decide)).bind fun _ =>
    (onward_forInitializer containedExpression).bind_needing
      (fun first => (contained_forCondition containedExpression).bind fun condition =>
        (contained_semicolon _).onward.bind_needing
          (fun _ => (contained_forIncrement containedExpression).bind fun increment =>
            (Contained.symbol _ (by decide)).bind fun _ =>
            contained.bind_ending (fun _ => .pure _) fun _ => ⟨_, fun _ _ => rfl⟩)
          fun _ => needs.bind.bind)
      fun _ => needs.bind)
    fun _ => Needs.bind fun _ finds => nomatch finds

end OfStatements

section OfDeclarations

variable (onward : Onward declaration) (bound : Nat)
include onward

theorem contained_blockStatement : Contained true (blockStatement declaration bound) :=
  Contained.skip.bind_needing
    (fun _ => (contained_blockRest onward bound).bind fun _ => .pure _)
    fun _ => (needs_blockRest declaration bound).bind

theorem contained_functionRest (role : String) (declared : Name) :
    Contained false (functionRest role declared declaration bound) :=
  (Contained.symbol _ (by decide)).bind fun _ => (contained_parameters bound).bind fun _ =>
    (contained_functionBody onward role bound).bind fun _ => .pure _

theorem contained_functionDeclaration : Contained true (functionDeclaration declaration bound) :=
  Contained.skip.bind_needing (fun _ => (Contained.name _).bind fun declared =>
    (contained_functionRest onward bound _ declared).bind fun _ => .pure _)
    fun _ => Needs.bind fun _ finds => nomatch finds

theorem contained_method : Contained false (method declaration bound) :=
  (Contained.name _).bind fun declared => (Contained.sees _).bind fun _ => .ite
    ((contained_functionBody onward _ bound).bind fun _ => .pure _)
    (contained_functionRest onward bound _ declared)

theorem contained_classDeclaration : Contained true (classDeclaration declaration bound) := by
  have clause : Contained false superclass := by
    refine (Contained.optionalSymbol (by decide)).bind fun found => ?_
    cases found with
    | none => exact .pure none
    | some _ => exact (Contained.name _).bind fun _ => .pure _
  refine Contained.skip.bind_needing (fun span => (Contained.name _).bind fun declared =>
    clause.bind fun inherited => (Contained.symbol _ (by decide)).bind fun _ => ?_)
    fun _ => Needs.bind fun _ finds => nomatch finds
  exact (contained_braced ((contained_method onward bound).onward.itemsUntil _ bound) _ _).weaken

end OfDeclarations

theorem contained_statementOf (containedExpression : Contained false expression)
    (needs : Needs expression) (contained : Contained true statement)
    (onward : Onward declaration) (bound : Nat) :
    Contained true (statementOf expression statement declaration bound) := by
  refine Contained.peek.bind fun token => ?_
  split
  · exact contained_forStatement containedExpression needs contained
  · exact contained_ifStatement containedExpression contained
  · exact contained_printStatement containedExpression needs
  · exact contained_returnStatement containedExpression needs
  · exact contained_whileStatement containedExpression contained
  · exact contained_jumpStatement _ _
  · exact contained_jumpStatement _ _
  · exact contained_blockStatement onward bound
  · exact contained_expressionStatement containedExpression

theorem contained_seesNamedFunction : Contained false seesNamedFunction := by
  refine .of_silent (fun tokens => ((seesNamedFunction tokens).outcome.toOption).getD false)
    (fun tokens => ?_) fun tokens more closed => ?_
  · unfold seesNamedFunction
    split <;> rfl
  · match tokens with
    | [] => exact absurd rfl closed.ne_nil
    | [token] =>
        -- A single token is the semicolon, so it makes no difference that another one follows.
        have isSemicolon := closed.single
        cases more <;> simp [seesNamedFunction, isSemicolon, Token.Kind.isKeyword, Except.toOption]
    | _ :: _ :: _ => rfl

theorem contained_declarationOf (containedExpression : Contained false expression)
    (contained : Contained true statement) (onward : Onward declaration) (bound : Nat) :
    Contained true (declarationOf expression statement declaration bound) :=
  (Contained.sees _).bind fun _ => .ite (contained_classDeclaration onward bound)
    (contained_seesNamedFunction.bind fun _ => .ite (contained_functionDeclaration onward bound)
      ((Contained.sees _).bind fun _ => .ite (contained_varDeclaration containedExpression)
        contained))

end Statements

/-! ## The nesting -/

/-- An expression has at least one token. -/
theorem needs_expression (bound : Nat) : Needs (expression bound) := by
  match bound with
  | 0 => exact fun _ finds => nomatch finds
  | 1 => exact fun _ finds => nomatch finds
  | bound + 2 =>
      intro found finds
      have enough : 4 * 1 ≤ bound + 2 + 2 := by omega
      obtain ⟨_, _, taken⟩ := (settles_constructs 1).2.1 _ _ enough enough [] Nat.one_pos
      rcases answer : expression (bound + 2) [] with ⟨outcome, rest, notes⟩
      rw [answer] at finds
      obtain rfl : outcome = .ok found := finds
      exact absurd (taken found rest notes answer) (by simp)

/-- The rules nest each other: each is contained if those that it nests are. -/
theorem contained_constructs (bound : Nat) :
    (Contained false (expression bound) ∧ Contained false (operand bound)) ∧
      Contained true (statement bound) ∧ Contained true (declaration bound) := by
  induction bound with
  | zero => exact ⟨⟨.fail rfl, .fail rfl⟩, .fail rfl, .fail rfl⟩
  | succ bound inductionHypothesis =>
      obtain ⟨⟨ofExpression, ofOperand⟩, ofStatement, ofDeclaration⟩ := inductionHypothesis
      have onward := ofDeclaration.onward
      have ofPrimary := contained_primary ofExpression onward bound
      exact ⟨⟨contained_assignment (contained_operations ofOperand bound Level.all) ofExpression,
          contained_prefixed ofOperand (contained_suffixed ofPrimary ofExpression bound)⟩,
        contained_statementOf ofExpression (needs_expression bound) ofStatement onward bound,
        contained_declarationOf ofExpression ofStatement onward bound⟩

end Lox.Grammar
