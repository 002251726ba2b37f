import Lox.Proofs.Grammar.Recorded

/-!
Contract: what is complained of in a program, and in which order.

Rule by rule, complaints are recorded, and bounds on nested constructs that the tokens cannot use
up play no part: every such bound gives the same reply, and no complaint is about nesting. So the
complaints about a program are recorded too, each from where reading is resumed behind the last,
and each is about one of the tokens or about their end.

Main statements: `declarations_recorded`, `Program.syntaxError_span`.

Owns: the rules of the grammar, programs. Does not own: places.
-/

set_option autoImplicit false

namespace Lox

namespace Grammar

open Lox.Parser

variable {reach bound bound' : Nat}

/-! ## Expressions -/

section Expressions

variable {inner inner' operand operand' : Parser Expr} {item item' : Parser Stmt}

theorem settles_operands (level : Level) (settles : Settles 1 reach operand operand') (left : Expr)
    (enough : reach ≤ bound) (enough' : reach ≤ bound') :
    Settles 0 reach (operands level operand bound left) (operands level operand' bound' left) := by
  induction reach generalizing bound bound' left with
  | zero => exact .nowhere _ _ _
  | succ reach inductionHypothesis =>
      obtain ⟨bound, rfl⟩ := Nat.exists_eq_add_of_le' enough
      obtain ⟨bound', rfl⟩ := Nat.exists_eq_add_of_le' enough'
      have shorter := settles.within (Nat.le_succ reach)
      refine .bind_optionalAs (.pure _) (fun found => ?_) (Nat.zero_le 1)
      exact shorter.bind fun right =>
        inductionHypothesis shorter _ (Nat.le_add_left reach bound) (Nat.le_add_left reach bound')

theorem settles_operations (settles : Settles 1 reach operand operand') (enough : reach ≤ bound)
    (enough' : reach ≤ bound') (levels : List Level) :
    Settles 1 reach (operations bound operand levels) (operations bound' operand' levels) := by
  induction levels with
  | nil => exact settles
  | cons level tighter inductionHypothesis =>
      cases reach with
      | zero => exact .nowhere _ _ _
      | succ reach =>
          exact inductionHypothesis.bind_taking fun first =>
            settles_operands level (inductionHypothesis.within (Nat.le_succ reach)) first
              (Nat.le_of_succ_le enough) (Nat.le_of_succ_le enough')

/-- What is behind a `=` ends in the value, or in a note about the `=`. -/
theorem settlesAt_assigned {value value' : Parser Expr} {assign : Expr → Parser Expr}
    {equals : Token} {after : List Token} (settles : SettlesAt 1 after value value')
    (reads : value after = expression (boundFor after) after)
    (finishes : ∀ found, (∃ tree, assign found = pure tree) ∨ ∃ tree, assign found =
      note .assignmentTarget (some equals) >>= fun _ => pure tree) :
    (value' >>= assign) after = (value >>= assign) after ∧
      Recorded (equals :: after) ((value >>= assign) after).complaints
        ((value >>= assign) after).rest ∧
      ((value >>= assign) after).rest.length ≤ after.length := by
  obtain ⟨same, recorded, taken⟩ := settles
  rcases answer : value after with ⟨complaint | found, rest, notes⟩
  · have stopped : (value >>= assign) after = ⟨.error complaint, rest, notes⟩ :=
      bind_of_error answer
    rw [answer] at same recorded
    refine ⟨?_, ?_, ?_⟩
    · rw [bind_of_error same, stopped]
    · rw [stopped]
      exact recorded.earlier (List.suffix_cons ..)
    · rw [stopped]
      exact recorded.suffix.length_le
  · have goesOn : (value >>= assign) after =
        { assign found rest with notes := notes ++ (assign found rest).notes } := bind_of_ok answer
    rw [answer] at same recorded
    rw [bind_of_ok same, goesOn]
    refine ⟨rfl, ?_⟩
    have noted : Recorded after notes rest := by
      simpa only [Reply.complaints, List.append_nil] using recorded
    have shorter := noted.suffix.length_le
    rcases finishes found with ⟨tree, ends⟩ | ⟨tree, ends⟩
    · have reply : assign found rest = ⟨.ok tree, rest, []⟩ := by rw [ends]; rfl
      simp only [reply, Reply.complaints, List.append_nil]
      exact ⟨noted.earlier (List.suffix_cons ..), shorter⟩
    · have reply : assign found rest = ⟨.ok tree, rest, [⟨.assignmentTarget, some equals⟩]⟩ := by
        rw [ends]; rfl
      simp only [reply, Reply.complaints, List.append_nil]
      exact ⟨.target (reads.symm.trans answer) noted, shorter⟩

/-- That a target is none is noted behind what is noted in the value. -/
theorem settles_assignment {left left' value value' : Parser Expr}
    (settlesLeft : Settles 1 (reach + 1) left left') (settlesValue : Settles 1 reach value value')
    (reads : ∀ tokens, tokens.length < reach → value tokens = expression (boundFor tokens) tokens) :
    Settles 1 (reach + 1) (assignment left value) (assignment left' value') := by
  refine settlesLeft.bind_taking fun target tokens short => ?_
  have absent (missing : optionalSymbol .equal tokens = ⟨.ok none, tokens, []⟩)
      {next next' : Option Token → Parser Expr} (stays : next none = pure target)
      (stays' : next' none = pure target) :
      SettlesAt 0 tokens (optionalSymbol .equal >>= next) (optionalSymbol .equal >>= next') := by
    have enough : tokens.length + 0 ≤ tokens.length := Nat.le_refl _
    have found : SettlesAt 0 tokens (next none) (next' none) := by
      rw [stays, stays']
      exact Settles.pure target tokens short
    have both := SettlesAt.bind_found missing List.suffix_rfl enough found
    exact both
  cases tokens with
  | nil => exact absent rfl rfl rfl
  | cons equals after =>
      by_cases isEqual : equals.kind.isSymbol .equal = true
      · have there : optionalSymbol .equal (equals :: after) = ⟨.ok (some equals), after, []⟩ := by
          simp [optionalSymbol, Parser.optional, isEqual]
        have inside : after.length < reach := Nat.lt_of_succ_lt short
        have present {assign : Expr → Parser Expr} {next next' : Option Token → Parser Expr}
            (goesOn : next (some equals) = value >>= assign)
            (goesOn' : next' (some equals) = value' >>= assign)
            (finishes : ∀ found, (∃ tree, assign found = pure tree) ∨ ∃ tree, assign found =
              note .assignmentTarget (some equals) >>= fun _ => pure tree) :
            SettlesAt 0 (equals :: after) (optionalSymbol .equal >>= next)
              (optionalSymbol .equal >>= next') := by
          obtain ⟨same, recorded, shorter⟩ :=
            settlesAt_assigned (settlesValue after inside) (reads after inside) finishes
          have behind : (optionalSymbol .equal >>= next) (equals :: after) =
              (value >>= assign) after := by
            rw [← goesOn]
            exact bind_of_ok there
          have behind' : (optionalSymbol .equal >>= next') (equals :: after) =
              (value' >>= assign) after := by
            rw [← goesOn']
            exact bind_of_ok there
          refine ⟨?_, ?_, fun found rest notes answer => ?_⟩
          · rw [behind, behind', same]
          · rw [behind]
            exact recorded
          · rw [behind] at answer
            rw [answer] at shorter
            exact Nat.le_succ_of_le shorter
        refine present rfl rfl fun found => ?_
        cases target with
        | «variable» reference => exact .inl ⟨_, rfl⟩
        | get object name => exact .inl ⟨_, rfl⟩
        | _ => exact .inr ⟨_, rfl⟩
      · exact absent (by simp [optionalSymbol, Parser.optional, isEqual]) rfl rfl

theorem settles_prefixed {tighter tighter' : Parser Expr}
    (settles : Settles 1 reach operand operand')
    (settlesTighter : Settles 1 (reach + 1) tighter tighter') :
    Settles 1 (reach + 1) (prefixed operand tighter) (prefixed operand' tighter') :=
  .bind_optionalAs settlesTighter
    (fun _ => settles.bind fun _ => .pure _) (Nat.le_refl 1)

theorem settles_suffixes (settles : Settles 1 reach inner inner') (head : Expr)
    (enough : reach ≤ bound) (enough' : reach ≤ bound') :
    Settles 0 reach (suffixes inner bound head) (suffixes inner' bound' head) := by
  induction reach generalizing bound bound' head with
  | zero => exact .nowhere _ _ _
  | succ reach inductionHypothesis =>
      obtain ⟨bound, rfl⟩ := Nat.exists_eq_add_of_le' enough
      obtain ⟨bound', rfl⟩ := Nat.exists_eq_add_of_le' enough'
      have shorter := settles.within (Nat.le_succ reach)
      have others (head : Expr) : Settles 0 reach (suffixes inner (bound + reach) head)
          (suffixes inner' (bound' + reach) head) :=
        inductionHypothesis shorter head (Nat.le_add_left reach bound)
          (Nat.le_add_left reach bound')
      refine .bind_optional (.bind_optional (.pure _) (fun _ => ?_) (Nat.zero_le 1)) (fun _ => ?_)
        (Nat.zero_le 1)
      · have word : Settles 1 reach (require Token.Kind.isIdentifier .property)
            (require Token.Kind.isIdentifier .property) :=
          .require (fun same => nomatch same) fun same => nomatch same
        exact word.bind fun _ => others _
      · have items := shorter.parenthesizedItems "arguments" (Nat.le_add_left reach bound)
          (Nat.le_add_left reach bound')
        exact items.bind fun _ => others _

theorem settles_blockRest (settles : Settles 1 reach item item') (enough : reach ≤ bound)
    (enough' : reach ≤ bound') :
    Settles 1 reach (blockRest item bound) (blockRest item' bound') := by
  refine (settles.itemsUntil _ enough enough').bind fun _ => ?_
  cases reach with
  | zero => exact .nowhere _ _ _
  | succ reach => exact (Settles.symbol _ _).bind_taking fun _ => .pure _

theorem settles_functionBody (role : String) (settles : Settles 1 reach item item')
    (enough : reach ≤ bound) (enough' : reach ≤ bound') :
    Settles 1 reach (functionBody role item bound) (functionBody role item' bound') :=
  (Settles.symbol _ _).bind fun _ => settles_blockRest settles enough enough'

theorem settles_parameters (enough : reach ≤ bound) (enough' : reach ≤ bound') :
    Settles 1 reach (parameters bound) (parameters bound') := by
  have names := (Settles.name "parameter").parenthesizedItems "parameters" enough enough'
  cases reach with
  | zero => exact .nowhere _ _ _
  | succ reach => exact names.bind_taking fun _ => .pure _

theorem settles_lambdaRest (word : Name) (settles : Settles 1 reach item item')
    (enough : reach ≤ bound) (enough' : reach ≤ bound') :
    Settles 0 reach (lambdaRest word item bound) (lambdaRest word item' bound') :=
  (Settles.symbol _ _).bind fun _ =>
    (settles_parameters enough enough').bind fun _ =>
      (settles_functionBody _ settles enough enough').bind fun _ => .pure _

theorem settles_groupingRest (settles : Settles 1 reach inner inner') (span : Span) :
    Settles 0 reach (groupingRest inner span) (groupingRest inner' span) :=
  settles.bind fun _ =>
    (Settles.symbol _ _).bind fun _ => .pure _

theorem settles_superRest (span : Span) : Settles 0 reach (superRest span) (superRest span) :=
  (Settles.symbol _ _).bind fun _ =>
    (Settles.name _).bind fun _ => .pure _

theorem settles_primary (settlesInner : Settles 1 reach inner inner')
    (settles : Settles 1 reach item item') (enough : reach ≤ bound) (enough' : reach ≤ bound') :
    Settles 1 (reach + 1) (primary inner item bound) (primary inner' item' bound') := by
  have missing : Settles 1 (reach + 1) (fail .expression : Parser Expr) (fail .expression) :=
    .fail (fun same => nomatch same) fun same => nomatch same
  refine .bind_peek missing fun token rest short => ?_
  simp only
  split
  all_goals first
    | exact Settles.skip_bind short fun _ => .pure _
    | exact Settles.skip_bind short fun _ => settles_superRest _
    | exact Settles.skip_bind short fun _ => settles_groupingRest settlesInner _
    | exact Settles.skip_bind short fun _ => settles_lambdaRest _ settles enough enough'
    | exact missing _ short

end Expressions

/-! ## Statements -/

section Statements

variable {expression expression' : Parser Expr}
  {statement statement' declaration declaration' : Parser Stmt}

section OfExpressions

variable (settles : Settles 1 reach expression expression')
include settles

theorem settles_expressionStatement :
    Settles 1 reach (expressionStatement expression) (expressionStatement expression') := by
  cases reach with
  | zero => exact .nowhere _ _ _
  | succ reach =>
      exact Settles.nextSpan.bind fun _ => settles.bind_taking fun _ =>
        (Settles.symbol _ _).bind fun _ => .pure _

theorem settles_printStatement :
    Settles 1 reach (printStatement expression) (printStatement expression') := by
  cases reach with
  | zero => exact .nowhere _ _ _
  | succ reach =>
      exact Settles.skip.bind fun _ => settles.bind_taking fun _ =>
        (Settles.symbol _ _).bind fun _ => .pure _

theorem settles_returnStatement :
    Settles 1 reach (returnStatement expression) (returnStatement expression') := by
  have ending (value : Option Expr) (span : Span) : Settles 1 reach
      (semicolon "after return value" >>= fun _ => pure (Stmt.return value span))
      (semicolon "after return value" >>= fun _ => pure (Stmt.return value span)) := by
    cases reach with
    | zero => exact .nowhere _ _ _
    | succ reach => exact (Settles.symbol _ _).bind_taking fun _ => .pure _
  exact Settles.skip.bind fun _ => (Settles.sees _).bind fun _ => .ite
    ((Settles.pure _).bind fun value => ending value _)
    ((settles.map _).bind fun value => ending value _)

theorem settles_varDeclaration :
    Settles 1 (reach + 1) (varDeclaration expression) (varDeclaration expression') := by
  refine Settles.skip.bind fun _ => (Settles.name _).bind_taking fun _ => ?_
  cases reach with
  | zero => exact .nowhere _ _ _
  | succ reach =>
      refine .bind_optional
        ((Settles.pure _).bind fun _ => (Settles.symbol _ _).bind fun _ => .pure _)
        (fun _ => ?_) (Nat.zero_le 1)
      exact ((settles.within (Nat.le_succ reach)).map _).bind fun _ =>
        (Settles.symbol _ _).bind fun _ => .pure _

theorem settles_forInitializer :
    Settles 0 reach (forInitializer expression) (forInitializer expression') := by
  cases reach with
  | zero => exact .nowhere _ _ _
  | succ reach =>
      refine .bind_optional ?_ (fun _ => .pure _) (Nat.zero_le 1)
      have declarations := settles_varDeclaration (settles.within (Nat.le_succ reach))
      have expressions := settles_expressionStatement settles
      exact (Settles.sees _).bind fun _ =>
        .ite ((declarations.map _).atLeast (Nat.zero_le 1))
          ((expressions.map _).atLeast (Nat.zero_le 1))

theorem settles_forCondition :
    Settles 0 reach (forCondition expression) (forCondition expression') :=
  (Settles.sees _).bind fun _ => .ite (Settles.nextSpan.bind fun _ => .pure _)
    (settles.atLeast (Nat.zero_le 1))

theorem settles_forIncrement :
    Settles 0 reach (forIncrement expression) (forIncrement expression') :=
  (Settles.sees _).bind fun _ => .ite (.pure _) ((settles.map _).atLeast (Nat.zero_le 1))

end OfExpressions

theorem settles_jumpStatement (word : Keyword) (node : Span → Stmt) :
    Settles 1 reach (jumpStatement word node) (jumpStatement word node) := by
  cases reach with
  | zero => exact .nowhere _ _ _
  | succ reach =>
      exact Settles.skip.bind fun _ => (Settles.symbol _ _).bind_taking fun _ => .pure _

section OfStatements

variable (settlesExpression : Settles 1 reach expression expression')
  (settlesStatement : Settles 1 reach statement statement')
include settlesExpression settlesStatement

theorem settles_ifStatement :
    Settles 1 (reach + 1) (ifStatement expression statement)
      (ifStatement expression' statement') := by
  refine Settles.skip.bind fun _ => (Settles.symbol _ _).bind_taking fun _ =>
    settlesExpression.bind fun _ => (Settles.symbol _ _).bind fun _ =>
    settlesStatement.bind fun _ => ?_
  cases reach with
  | zero => exact .nowhere _ _ _
  | succ reach =>
      exact .bind_optional ((Settles.pure _).bind fun _ => .pure _)
        (fun _ => ((settlesStatement.within (Nat.le_succ reach)).map _).bind fun _ => .pure _)
        (Nat.zero_le 1)

theorem settles_whileStatement :
    Settles 1 (reach + 1) (whileStatement expression statement)
      (whileStatement expression' statement') :=
  Settles.skip.bind fun _ => (Settles.symbol _ _).bind_taking fun _ =>
    settlesExpression.bind fun _ => (Settles.symbol _ _).bind fun _ =>
    settlesStatement.bind fun _ => .pure _

theorem settles_forStatement :
    Settles 1 (reach + 1) (forStatement expression statement)
      (forStatement expression' statement') :=
  Settles.skip.bind fun _ => (Settles.symbol _ _).bind_taking fun _ =>
    (settles_forInitializer settlesExpression).bind fun _ =>
    (settles_forCondition settlesExpression).bind fun _ => (Settles.symbol _ _).bind fun _ =>
    (settles_forIncrement settlesExpression).bind fun _ => (Settles.symbol _ _).bind fun _ =>
    settlesStatement.bind fun _ => .pure _

end OfStatements

section OfDeclarations

variable (settles : Settles 1 reach declaration declaration') (enough : reach ≤ bound)
  (enough' : reach ≤ bound')
include settles enough enough'

theorem settles_functionRest (role : String) (declared : Name) :
    Settles 1 reach (functionRest role declared declaration bound)
      (functionRest role declared declaration' bound') := by
  refine (Settles.symbol _ _).bind fun _ => (settles_parameters enough enough').bind fun _ => ?_
  have body := settles_functionBody role settles enough enough'
  cases reach with
  | zero => exact .nowhere _ _ _
  | succ reach => exact body.bind_taking fun _ => .pure _

theorem settles_functionDeclaration :
    Settles 1 (reach + 1) (functionDeclaration declaration bound)
      (functionDeclaration declaration' bound') :=
  Settles.skip.bind fun _ => (Settles.name _).bind_taking fun _ =>
    (settles_functionRest settles enough enough' _ _).bind fun _ => .pure _

theorem settles_method :
    Settles 1 (reach + 1) (method declaration bound) (method declaration' bound') :=
  (Settles.name _).bind_taking fun _ => (Settles.sees _).bind fun _ => .ite
    ((settles_functionBody _ settles enough enough').bind fun _ => .pure _)
    ((settles_functionRest settles enough enough' _ _).atLeast (Nat.zero_le 1))

theorem settles_classDeclaration :
    Settles 1 (reach + 1) (classDeclaration declaration bound)
      (classDeclaration declaration' bound') := by
  refine Settles.skip.bind fun _ => (Settles.name _).bind_taking fun _ => ?_
  cases reach with
  | zero => exact .nowhere _ _ _
  | succ reach =>
      have clause : Settles 0 (reach + 1) superclass superclass :=
        .bind_optional (.pure _) (fun _ => (Settles.name _).bind fun _ => .pure _) (Nat.zero_le 1)
      have methods := settles_method (settles.within (Nat.le_succ reach)) (Nat.le_of_succ_le enough)
        (Nat.le_of_succ_le enough')
      exact clause.bind fun _ => (Settles.symbol _ _).bind fun _ =>
        (methods.itemsUntil _ enough enough').bind fun _ => (Settles.symbol _ _).bind fun _ =>
          .pure _

end OfDeclarations

theorem settles_statementOf (settlesExpression : Settles 1 (reach + 1) expression expression')
    (settlesStatement : Settles 1 reach statement statement')
    (settlesDeclaration : Settles 1 reach declaration declaration') (enough : reach ≤ bound)
    (enough' : reach ≤ bound') :
    Settles 1 (reach + 1) (statementOf expression statement declaration bound)
      (statementOf expression' statement' declaration' bound') := by
  have behind := settlesExpression.within (Nat.le_succ reach)
  refine .bind_peek (settles_expressionStatement settlesExpression) fun token rest short => ?_
  simp only [Option.map_some]
  split
  · exact settles_forStatement behind settlesStatement _ short
  · exact settles_ifStatement behind settlesStatement _ short
  · exact settles_printStatement settlesExpression _ short
  · exact settles_returnStatement settlesExpression _ short
  · exact settles_whileStatement behind settlesStatement _ short
  · exact settles_jumpStatement _ _ _ short
  · exact settles_jumpStatement _ _ _ short
  · exact Settles.skip_bind short fun _ =>
      (settles_blockRest settlesDeclaration enough enough').bind fun _ => .pure _
  · exact settles_expressionStatement settlesExpression _ short

theorem settles_declarationOf (settlesExpression : Settles 1 reach expression expression')
    (settlesStatement : Settles 1 (reach + 1) statement statement')
    (settlesDeclaration : Settles 1 reach declaration declaration') (enough : reach ≤ bound)
    (enough' : reach ≤ bound') :
    Settles 1 (reach + 1) (declarationOf expression statement declaration bound)
      (declarationOf expression' statement' declaration' bound') := by
  have named : Settles 0 (reach + 1) seesNamedFunction seesNamedFunction := by
    refine .of_silent (fun tokens => ((seesNamedFunction tokens).outcome.toOption).getD false)
      fun tokens => ?_
    unfold seesNamedFunction
    split <;> rfl
  exact (Settles.sees _).bind fun _ => .ite
    (settles_classDeclaration settlesDeclaration enough enough')
    (named.bind fun _ => .ite (settles_functionDeclaration settlesDeclaration enough enough')
      ((Settles.sees _).bind fun _ =>
        .ite (settles_varDeclaration settlesExpression) settlesStatement))

end Statements

/-! ## The nesting -/

/-- From one token to the next at most four constructs open, so that these bounds suffice. -/
theorem settles_constructs (reach : Nat) :
    (∀ bound bound', 4 * reach ≤ bound + 3 → 4 * reach ≤ bound' + 3 →
      Settles 1 reach (operand bound) (operand bound')) ∧
    (∀ bound bound', 4 * reach ≤ bound + 2 → 4 * reach ≤ bound' + 2 →
      Settles 1 reach (expression bound) (expression bound')) ∧
    (∀ bound bound', 4 * reach ≤ bound + 1 → 4 * reach ≤ bound' + 1 →
      Settles 1 reach (statement bound) (statement bound')) ∧
    ∀ bound bound', 4 * reach ≤ bound → 4 * reach ≤ bound' →
      Settles 1 reach (declaration bound) (declaration bound') := by
  induction reach using Nat.strongRecOn with
  | ind reach inductionHypothesis =>
    cases reach with
    | zero =>
      exact ⟨fun _ _ _ _ => .nowhere _ _ _, fun _ _ _ _ => .nowhere _ _ _,
        fun _ _ _ _ => .nowhere _ _ _, fun _ _ _ _ => .nowhere _ _ _⟩
    | succ reach =>
      obtain ⟨inOperand, inExpression, inStatement, inDeclaration⟩ :=
        inductionHypothesis reach (Nat.lt_succ_self reach)
      have operands (bound bound' : Nat) (enough : 4 * (reach + 1) ≤ bound + 3)
          (enough' : 4 * (reach + 1) ≤ bound' + 3) :
          Settles 1 (reach + 1) (operand bound) (operand bound') := by
        obtain ⟨bound, rfl⟩ := Nat.exists_eq_add_of_le' (show 1 ≤ bound by omega)
        obtain ⟨bound', rfl⟩ := Nat.exists_eq_add_of_le' (show 1 ≤ bound' by omega)
        refine settles_prefixed (inOperand _ _ (by omega) (by omega)) ?_
        exact (settles_primary (inExpression _ _ (by omega) (by omega))
          (inDeclaration _ _ (by omega) (by omega)) (by omega) (by omega)).bind_taking fun head =>
            settles_suffixes (inExpression _ _ (by omega) (by omega)) head (by omega) (by omega)
      have expressions (bound bound' : Nat) (enough : 4 * (reach + 1) ≤ bound + 2)
          (enough' : 4 * (reach + 1) ≤ bound' + 2) :
          Settles 1 (reach + 1) (expression bound) (expression bound') := by
        obtain ⟨bound, rfl⟩ := Nat.exists_eq_add_of_le' (show 1 ≤ bound by omega)
        obtain ⟨bound', rfl⟩ := Nat.exists_eq_add_of_le' (show 1 ≤ bound' by omega)
        refine settles_assignment
          (settles_operations (operands _ _ (by omega) (by omega)) (by omega) (by omega) Level.all)
          (inExpression _ _ (by omega) (by omega)) fun tokens short => ?_
        -- `settles_assignment` compares with `boundFor tokens`. That suffices for these tokens,
        -- which is the case `tokens.length + 1` of this lemma, but not for all up to `reach`.
        obtain ⟨_, inValue, _⟩ := inductionHypothesis (tokens.length + 1) (by omega)
        have enoughFor : 4 * (tokens.length + 1) ≤ boundFor tokens + 2 := by
          unfold boundFor
          omega
        exact (inValue _ _ enoughFor (by omega) tokens (Nat.lt_succ_self _)).same
      have statements (bound bound' : Nat) (enough : 4 * (reach + 1) ≤ bound + 1)
          (enough' : 4 * (reach + 1) ≤ bound' + 1) :
          Settles 1 (reach + 1) (statement bound) (statement bound') := by
        obtain ⟨bound, rfl⟩ := Nat.exists_eq_add_of_le' (show 1 ≤ bound by omega)
        obtain ⟨bound', rfl⟩ := Nat.exists_eq_add_of_le' (show 1 ≤ bound' by omega)
        exact settles_statementOf (expressions _ _ (by omega) (by omega))
          (inStatement _ _ (by omega) (by omega)) (inDeclaration _ _ (by omega) (by omega))
          (by omega) (by omega)
      refine ⟨operands, expressions, statements, fun bound bound' enough enough' => ?_⟩
      obtain ⟨bound, rfl⟩ := Nat.exists_eq_add_of_le' (show 1 ≤ bound by omega)
      obtain ⟨bound', rfl⟩ := Nat.exists_eq_add_of_le' (show 1 ≤ bound' by omega)
      exact settles_declarationOf (inExpression _ _ (by omega) (by omega))
        (statements _ _ (by omega) (by omega)) (inDeclaration _ _ (by omega) (by omega))
        (by omega) (by omega)

/-! ## Programs -/

theorem resumeBehind_suffix (previous : Token) (tokens : List Token) :
    resumeBehind previous tokens <:+ tokens := by
  induction tokens generalizing previous with
  | nil => exact List.suffix_rfl
  | cons token rest inductionHypothesis =>
      simp only [resumeBehind]
      split
      · exact List.suffix_rfl
      · exact (inductionHypothesis token).trans (List.suffix_cons ..)

theorem resume_suffix (tokens : List Token) : resume tokens <:+ tokens := by
  cases tokens with
  | nil => exact List.suffix_rfl
  | cons token rest => exact (resumeBehind_suffix token rest).trans (List.suffix_cons ..)

/-- The complaints about a program are recorded, for every bound that its tokens cannot use up. -/
theorem declarations_recorded {bound : Nat} (rounds : Nat) {tokens : List Token}
    (enough : boundFor tokens ≤ bound) :
    ∃ rest, Recorded tokens (declarations bound rounds tokens).complaints rest := by
  induction rounds generalizing tokens with
  | zero => cases tokens <;> exact ⟨_, .skipped [] _⟩
  | succ rounds inductionHypothesis =>
      cases tokens with
      | nil => exact ⟨[], .skipped [] []⟩
      | cons token others =>
          have room : 4 * ((token :: others).length + 1) ≤ bound := by
            unfold boundFor at enough
            omega
          obtain ⟨_, recorded, _⟩ :=
            (settles_constructs _).2.2.2 bound bound room room _ (Nat.lt_succ_self _)
          have goesOn {point : List Token} (later : point <:+ token :: others) :
              ∃ rest, Recorded point (declarations bound rounds point).complaints rest := by
            refine inductionHypothesis ?_
            have shorter := later.length_le
            unfold boundFor at enough ⊢
            omega
          rcases answer : declaration bound (token :: others) with ⟨complaint | found, rest, notes⟩
          · rw [answer] at recorded
            have later := (resume_suffix rest).trans recorded.suffix
            obtain ⟨last, behind⟩ := goesOn later
            refine ⟨last, ?_⟩
            simp only [declarations, answer]
            rw [List.append_cons]
            exact recorded.append (behind.earlier (resume_suffix rest))
          · rw [answer] at recorded
            obtain ⟨last, behind⟩ := goesOn recorded.suffix
            refine ⟨last, ?_⟩
            simp only [Reply.complaints, List.append_nil] at recorded
            simp only [declarations, answer]
            exact recorded.append behind

end Grammar

open Grammar

/-- A syntax error stands at a token of the text, or where the text ends. -/
theorem Program.syntaxError_span {tokens : List Token} {errors : List SyntaxError}
    (read : Program.ofTokens tokens = .error errors) {error : SyntaxError}
    (member : error ∈ errors) :
    error.span = (Text.of tokens).finish ∨
      ∃ token ∈ (Text.of tokens).tokens, error.span = token.span := by
  simp only [Program.ofTokens] at read
  split at read
  · cases read
  · obtain rfl := Except.error.inj read
    obtain ⟨complaint, complains, rfl⟩ := List.mem_map.mp member
    obtain ⟨_, recorded⟩ := declarations_recorded (Text.of tokens).tokens.length
      (Nat.le_refl (boundFor (Text.of tokens).tokens))
    cases about : complaint.token with
    | none =>
        refine .inl ?_
        simp only [Complaint.toError, about]
    | some token =>
        refine .inr ⟨token, recorded.mem_of_token complains about, ?_⟩
        simp only [Complaint.toError, about]

end Lox
