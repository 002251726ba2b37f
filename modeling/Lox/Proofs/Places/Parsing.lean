import Lox.Grammar.Reading
import Lox.Proofs.Places.Scanning
import Lox.Proofs.Places.Tree

/-!
Contract: reading does not look at places.

From tokens at other places a parser finds what it finds from the tokens, at other places, and it
complains of the same tokens. That holds for every rule, also where a source is wrong. Where a
text ends, there is no token whose place could be taken: such a node stands nowhere, and the
statements are about moves that leave it there.

Main statements: `Program.ofTokens_moved`, `Expr.ofTokens_moved`.

Owns: moved replies and complaints, parsers that commute with moving. Does not own: which tokens
are derived.
-/

set_option autoImplicit false

namespace Lox

/-- The complaint about the token at another place. -/
def Complaint.moved (move : Span → Span) (complaint : Complaint) : Complaint :=
  ⟨complaint.cause, complaint.token.map (Token.moved move)⟩

/-- The syntax error at another place. -/
def SyntaxError.moved (move : Span → Span) (error : SyntaxError) : SyntaxError :=
  { error with span := move error.span }

theorem Complaint.toError_moved (move : Span → Span) (finish : Span) (complaint : Complaint) :
    (complaint.moved move).toError (move finish) = (complaint.toError finish).moved move := by
  obtain ⟨cause, token⟩ := complaint
  cases token <;> rfl

/-- The reply with all its tokens at other places, and what it found changed. -/
def Reply.moved {α : Type} (move : Span → Span) (change : α → α) (reply : Reply α) : Reply α where
  outcome :=
    match reply.outcome with
    | .ok found => .ok (change found)
    | .error complaint => .error (complaint.moved move)
  rest := reply.rest.map (Token.moved move)
  notes := reply.notes.map (Complaint.moved move)

namespace Parser

variable {α β : Type}

/-- From moved tokens the one parser finds what the other finds, changed, and leaves what it
leaves, moved. -/
def Commutes (move : Span → Span) (change : α → α) (moved parser : Parser α) : Prop :=
  ∀ tokens : List Token, moved (tokens.map (Token.moved move)) = (parser tokens).moved move change

namespace Commutes

variable {move : Span → Span} {change : α → α}

theorem pure (value : α) : Commutes move change (Pure.pure (change value)) (Pure.pure value) :=
  fun _ => rfl

theorem bind {changeNext : β → β} {moved parser : Parser α} {movedNext next : α → Parser β}
    (first : Commutes move change moved parser)
    (second : ∀ value, Commutes move changeNext (movedNext (change value)) (next value)) :
    Commutes move changeNext (moved >>= movedNext) (parser >>= next) := by
  intro tokens
  have here := first tokens
  rcases answer : parser tokens with ⟨complaint | found, rest, notes⟩
  · rw [answer] at here
    rw [bind_of_error here, bind_of_error answer]
    rfl
  · rw [answer] at here
    rw [bind_of_ok here, bind_of_ok answer, second found rest]
    simp only [Reply.moved, List.map_append]

theorem map_some {moved parser : Parser α} (inner : Commutes move change moved parser) :
    Commutes move (Option.map change) (some <$> moved) (some <$> parser) :=
  inner.bind fun value => .pure (some value)

theorem fail (cause : SyntaxError.Cause) :
    Commutes move change (Parser.fail cause) (Parser.fail cause) := by
  intro tokens
  cases tokens <;> rfl

theorem note (cause : SyntaxError.Cause) (token : Option Token) :
    Commutes move id (Parser.note cause (token.map (Token.moved move))) (Parser.note cause token) :=
  fun _ => rfl

theorem peek : Commutes move (Option.map (Token.moved move)) Parser.peek Parser.peek := by
  intro tokens
  cases tokens <;> rfl

theorem atEnd : Commutes move id Parser.atEnd Parser.atEnd := by
  intro tokens
  cases tokens <;> rfl

theorem sees (test : Token.Kind → Bool) :
    Commutes move id (Parser.sees test) (Parser.sees test) := by
  intro tokens
  cases tokens <;> rfl

theorem skip (nowhere : move .nowhere = .nowhere) : Commutes move move Parser.skip Parser.skip := by
  intro tokens
  cases tokens with
  | nil => simp [Parser.skip, Reply.moved, nowhere]
  | cons token rest => rfl

theorem nextSpan (nowhere : move .nowhere = .nowhere) :
    Commutes move move Parser.nextSpan Parser.nextSpan := by
  intro tokens
  cases tokens with
  | nil => simp [Parser.nextSpan, Reply.moved, nowhere]
  | cons token rest => rfl

theorem optionalAs (meaning : Token.Kind → Option α) :
    Commutes move (Option.map fun found => (found.1, move found.2)) (Parser.optionalAs meaning)
      (Parser.optionalAs meaning) := by
  intro tokens
  cases tokens with
  | nil => rfl
  | cons token rest =>
      have sameKind : (token.moved move).kind = token.kind := rfl
      simp only [List.map_cons, Parser.optionalAs, sameKind]
      cases meaning token.kind <;> rfl

theorem optional (test : Token.Kind → Bool) :
    Commutes move (Option.map (Token.moved move)) (Parser.optional test)
      (Parser.optional test) := by
  intro tokens
  cases tokens with
  | nil => rfl
  | cons token rest =>
      have sameKind : (token.moved move).kind = token.kind := rfl
      simp only [List.map_cons, Parser.optional, sameKind]
      split <;> rfl

theorem require (test : Token.Kind → Bool) (cause : SyntaxError.Cause) :
    Commutes move (Token.moved move) (Parser.require test cause) (Parser.require test cause) := by
  intro tokens
  cases tokens with
  | nil => rfl
  | cons token rest =>
      have sameKind : (token.moved move).kind = token.kind := rfl
      simp only [List.map_cons, Parser.require, sameKind]
      split <;> rfl

theorem optionalSymbol (sign : Symbol) : Commutes move (Option.map (Token.moved move))
    (Parser.optionalSymbol sign) (Parser.optionalSymbol sign) :=
  optional _

theorem symbol (sign : Symbol) (place : String) :
    Commutes move (Token.moved move) (Parser.symbol sign place) (Parser.symbol sign place) :=
  require _ _

theorem name (role : String) :
    Commutes move (Name.moved move) (Parser.name role) (Parser.name role) :=
  (require _ _).bind fun token => .pure (⟨token.lexeme, token.span⟩ : Name)

theorem ite {first second first' second' : Parser α} (test : Bool)
    (yes : Commutes move change first first') (no : Commutes move change second second') :
    Commutes move change (if test then first else second) (if test then first' else second') := by
  cases test with
  | false => exact no
  | true => exact yes

section Repetitions

variable {moved item : Parser α} (commutes : Commutes move change moved item)
include commutes

theorem itemsUntil (stop : Token.Kind → Bool) (bound : Nat) :
    Commutes move (List.map change) (Parser.itemsUntil stop moved bound)
      (Parser.itemsUntil stop item bound) := by
  induction bound with
  | zero => exact .fail _
  | succ bound inductionHypothesis =>
      have round : Commutes move (List.map change)
          (do
            let first ← moved
            return first :: (← Parser.itemsUntil stop moved bound))
          (do
            let first ← item
            return first :: (← Parser.itemsUntil stop item bound)) :=
        commutes.bind fun first => inductionHypothesis.bind fun others => .pure (first :: others)
      exact atEnd.bind fun ended => by
        cases ended with
        | true => exact .pure []
        | false => exact (sees stop).bind fun stops => .ite stops (.pure []) round

/-- An item, and behind a comma what comes behind it. -/
theorem firstByComma {others more : Parser (List α)}
    (behind : Commutes move (List.map change) others more) :
    Commutes move (List.map change)
      (do
        let first ← moved
        match ← Parser.optionalSymbol .comma with
        | none => return [first]
        | some _ => return first :: (← others))
      (do
        let first ← item
        match ← Parser.optionalSymbol .comma with
        | none => return [first]
        | some _ => return first :: (← more)) :=
  commutes.bind fun first => (optionalSymbol .comma).bind fun comma => by
    cases comma with
    | none => exact .pure [first]
    | some _ => exact behind.bind fun rest => .pure (first :: rest)

theorem itemsByComma (things : String) (bound count : Nat) :
    Commutes move (List.map change) (Parser.itemsByComma things moved bound count)
      (Parser.itemsByComma things item bound count) := by
  induction bound generalizing count with
  | zero => exact .fail _
  | succ bound inductionHypothesis =>
      have round := firstByComma commutes (inductionHypothesis (count + 1))
      simp only [Parser.itemsByComma]
      split
      · exact peek.bind fun token => (note _ token).bind fun _ => round
      · exact round

theorem parenthesizedItems (things : String) (bound : Nat) :
    Commutes move (fun found => (found.1.map change, found.2.moved move))
      (Parser.parenthesizedItems things moved bound)
        (Parser.parenthesizedItems things item bound) := by
  have closing (found : List α) : Commutes move
      (fun found : List α × Token => (found.1.map change, found.2.moved move))
      (do return (found.map change, ← Parser.symbol .rightParen ("after " ++ things)))
      (do return (found, ← Parser.symbol .rightParen ("after " ++ things))) :=
    (symbol _ _).bind fun closes => .pure (found, closes)
  have nothing : Commutes move (List.map change) (Pure.pure []) (Pure.pure []) := .pure []
  exact (sees _).bind fun closed =>
    .ite closed (nothing.bind closing) ((commutes.itemsByComma things bound 0).bind closing)

end Repetitions

end Commutes

end Parser

namespace Grammar

open Lox.Parser

section Rules

variable {move : Span → Span} (nowhere : move .nowhere = .nowhere)

/-! ## Expressions -/

section Expressions

variable {inner inner' operand operand' : Parser Expr} {item item' : Parser Stmt}

theorem moved_join (left : Expr) (span : Span) (right : Expr) (connective : Connective) :
    (connective.join left span right).moved move =
      connective.join (left.moved move) (move span) (right.moved move) := by
  cases connective <;> rfl

theorem commutes_operands (level : Level)
    (commutes : Commutes move (Expr.moved move) operand' operand) (bound : Nat) (left : Expr) :
    Commutes move (Expr.moved move) (operands level operand' bound (left.moved move))
      (operands level operand bound left) := by
  induction bound generalizing left with
  | zero => exact .fail _
  | succ bound inductionHypothesis =>
      refine .bind (.optionalAs _) fun found => ?_
      cases found with
      | none => exact .pure left
      | some found =>
          refine commutes.bind fun right => ?_
          have others := inductionHypothesis (found.1.join left found.2 right)
          rw [moved_join] at others
          exact others

theorem commutes_operations (commutes : Commutes move (Expr.moved move) operand' operand)
    (bound : Nat) (levels : List Level) :
    Commutes move (Expr.moved move) (operations bound operand' levels)
      (operations bound operand levels) := by
  induction levels with
  | nil => exact commutes
  | cons level tighter inductionHypothesis =>
      exact inductionHypothesis.bind fun first =>
        commutes_operands level inductionHypothesis bound first

theorem commutes_assignment {left left' value value' : Parser Expr}
    (commutesLeft : Commutes move (Expr.moved move) left' left)
    (commutesValue : Commutes move (Expr.moved move) value' value) :
    Commutes move (Expr.moved move) (assignment left' value') (assignment left value) := by
  refine commutesLeft.bind fun target => (Commutes.optionalSymbol .equal).bind fun equals => ?_
  cases equals with
  | none => exact .pure target
  | some equals =>
      refine commutesValue.bind fun value => ?_
      cases target with
      | «variable» reference => exact .pure (Expr.assign ⟨reference.name, none⟩ value equals.span)
      | get object name => exact .pure (Expr.set object name value equals.span)
      | _ => exact (Commutes.note .assignmentTarget (some equals)).bind fun _ => .pure _

theorem commutes_prefixed {tighter tighter' : Parser Expr}
    (commutes : Commutes move (Expr.moved move) operand' operand)
    (commutesTighter : Commutes move (Expr.moved move) tighter' tighter) :
    Commutes move (Expr.moved move) (prefixed operand' tighter') (prefixed operand tighter) := by
  refine .bind (.optionalAs _) fun found => ?_
  cases found with
  | none => exact commutesTighter
  | some found => exact commutes.bind fun operand => .pure (Expr.unary found.1 operand found.2)

theorem commutes_suffixes (commutes : Commutes move (Expr.moved move) inner' inner) (bound : Nat)
    (head : Expr) :
    Commutes move (Expr.moved move) (suffixes inner' bound (head.moved move))
      (suffixes inner bound head) := by
  induction bound generalizing head with
  | zero => exact .fail _
  | succ bound inductionHypothesis =>
      refine .bind (.optionalSymbol _) fun opening => ?_
      cases opening with
      | some _ =>
          refine (commutes.parenthesizedItems _ bound).bind fun found => ?_
          have others := inductionHypothesis (.call head found.1 found.2.span)
          rw [Expr.moved, movedExprs_eq_map] at others
          exact others
      | none =>
          refine .bind (.optionalSymbol _) fun dot => ?_
          cases dot with
          | some _ =>
              exact (Commutes.require _ _).bind fun token =>
                inductionHypothesis (.get head ⟨token.lexeme, token.span⟩)
          | none => exact .pure head

theorem commutes_suffixed {head head' : Parser Expr}
    (commutesHead : Commutes move (Expr.moved move) head' head)
    (commutes : Commutes move (Expr.moved move) inner' inner) (bound : Nat) :
    Commutes move (Expr.moved move) (suffixed head' inner' bound) (suffixed head inner bound) :=
  commutesHead.bind fun head => commutes_suffixes commutes bound head

section Bodies

variable (commutes : Commutes move (Stmt.moved move) item' item) (bound : Nat)
include commutes

theorem commutes_blockRest :
    Commutes move (movedStmts move) (blockRest item' bound) (blockRest item bound) := by
  have lists : List.map (Stmt.moved move) = movedStmts move :=
    funext fun statements => (movedStmts_eq_map move statements).symm
  have statements := commutes.itemsUntil (·.isSymbol .rightBrace) bound
  rw [lists] at statements
  exact statements.bind fun statements => (Commutes.symbol _ _).bind fun _ => .pure statements

theorem commutes_functionBody (role : String) :
    Commutes move (movedStmts move) (functionBody role item' bound)
      (functionBody role item bound) :=
  (Commutes.symbol _ _).bind fun _ => commutes_blockRest commutes bound

end Bodies

theorem commutes_parameters (bound : Nat) :
    Commutes move (List.map (Name.moved move)) (parameters bound) (parameters bound) :=
  ((Commutes.name "parameter").parenthesizedItems "parameters" bound).bind fun found =>
    .pure found.1

theorem commutes_lambdaRest (commutes : Commutes move (Stmt.moved move) item' item) (word : Name)
    (bound : Nat) :
    Commutes move (Expr.moved move) (lambdaRest (word.moved move) item' bound)
      (lambdaRest word item bound) :=
  (Commutes.symbol _ _).bind fun _ => (commutes_parameters bound).bind fun found =>
    (commutes_functionBody commutes bound "function").bind fun body =>
      .pure (Expr.lambda ⟨word, found, body, false⟩)

theorem commutes_groupingRest (commutes : Commutes move (Expr.moved move) inner' inner)
    (span : Span) :
    Commutes move (Expr.moved move) (groupingRest inner' (move span)) (groupingRest inner span) :=
  commutes.bind fun found => (Commutes.symbol _ _).bind fun _ => .pure (Expr.grouping found span)

theorem commutes_superRest (span : Span) :
    Commutes move (Expr.moved move) (superRest (move span)) (superRest span) :=
  (Commutes.symbol _ _).bind fun _ => (Commutes.name _).bind fun method =>
    .pure (Expr.super none method span)

include nowhere in
theorem commutes_primary (commutesInner : Commutes move (Expr.moved move) inner' inner)
    (commutes : Commutes move (Stmt.moved move) item' item) (bound : Nat) :
    Commutes move (Expr.moved move) (primary inner' item' bound) (primary inner item bound) := by
  refine Commutes.peek.bind fun token => ?_
  cases token with
  | none => exact .fail _
  | some token =>
      have sameKind : (token.moved move).kind = token.kind := rfl
      simp only [Option.map_some, sameKind]
      split
      · exact (Commutes.skip nowhere).bind fun span => .pure (Expr.literal (.boolean false) span)
      · exact (Commutes.skip nowhere).bind fun span => .pure (Expr.literal (.boolean true) span)
      · exact (Commutes.skip nowhere).bind fun span => .pure (Expr.literal .nil span)
      · exact (Commutes.skip nowhere).bind fun span => .pure (Expr.literal (.number _) span)
      · exact (Commutes.skip nowhere).bind fun span => .pure (Expr.literal (.string _) span)
      · exact (Commutes.skip nowhere).bind commutes_superRest
      · exact (Commutes.skip nowhere).bind fun span => .pure (Expr.this none span)
      · exact (Commutes.skip nowhere).bind fun span =>
          .pure (Expr.variable ⟨⟨token.lexeme, span⟩, none⟩)
      · exact (Commutes.skip nowhere).bind (commutes_groupingRest commutesInner)
      · exact (Commutes.skip nowhere).bind fun span =>
          commutes_lambdaRest commutes ⟨token.lexeme, span⟩ bound
      · exact .fail _

end Expressions

/-! ## Statements -/

section Statements

variable {expression expression' : Parser Expr} {statement statement' : Parser Stmt}
variable {declaration declaration' : Parser Stmt}

section OfExpressions

variable (commutes : Commutes move (Expr.moved move) expression' expression)
include nowhere commutes

theorem commutes_expressionStatement :
    Commutes move (Stmt.moved move) (expressionStatement expression')
      (expressionStatement expression) :=
  (Commutes.nextSpan nowhere).bind fun span => commutes.bind fun value =>
    (Commutes.symbol _ _).bind fun _ => .pure (Stmt.expression value span)

theorem commutes_printStatement :
    Commutes move (Stmt.moved move) (printStatement expression') (printStatement expression) :=
  (Commutes.skip nowhere).bind fun span => commutes.bind fun value =>
    (Commutes.symbol _ _).bind fun _ => .pure (Stmt.print value span)

theorem commutes_varDeclaration :
    Commutes move (Stmt.moved move) (varDeclaration expression') (varDeclaration expression) := by
  have finish (span : Span) (declared : Name) (initializer : Option Expr) :
      Commutes move (Stmt.moved move)
        (do
          let _ ← semicolon "after variable declaration"
          return Stmt.var (declared.moved move) (movedOptionalExpr move initializer) (move span))
        (do
          let _ ← semicolon "after variable declaration"
          return Stmt.var declared initializer span) :=
    (Commutes.symbol _ _).bind fun _ => .pure (Stmt.var declared initializer span)
  refine (Commutes.skip nowhere).bind fun span => (Commutes.name _).bind fun declared =>
    (Commutes.optionalSymbol _).bind fun equals => ?_
  cases equals with
  | none => exact finish span declared none
  | some _ =>
      exact commutes.map_some.bind fun initializer => by
        rw [← movedOptionalExpr_eq_map]
        exact finish span declared initializer

theorem commutes_returnStatement :
    Commutes move (Stmt.moved move) (returnStatement expression') (returnStatement expression) := by
  have finish (span : Span) (value : Option Expr) :
      Commutes move (Stmt.moved move)
        (do
          let _ ← semicolon "after return value"
          return Stmt.return (value.map (Expr.moved move)) (move span))
        (do
          let _ ← semicolon "after return value"
          return Stmt.return value span) := by
    rw [← movedOptionalExpr_eq_map]
    exact (Commutes.symbol _ _).bind fun _ => .pure (Stmt.return value span)
  have nothing : Commutes move (Option.map (Expr.moved move)) (pure none) (pure none) := .pure none
  exact (Commutes.skip nowhere).bind fun span => (Commutes.sees _).bind fun ended =>
    .ite ended (nothing.bind (finish span)) (commutes.map_some.bind (finish span))

end OfExpressions

include nowhere in
theorem commutes_jumpStatement (word : Keyword) {node : Span → Stmt}
    (stands : ∀ span, (node span).moved move = node (move span)) :
    Commutes move (Stmt.moved move) (jumpStatement word node) (jumpStatement word node) :=
  (Commutes.skip nowhere).bind fun span => (Commutes.symbol _ _).bind fun _ => by
    rw [← stands]
    exact .pure (node span)

section OfBoth

variable (commutes : Commutes move (Expr.moved move) expression' expression)
variable (commutesBranch : Commutes move (Stmt.moved move) statement' statement)
include nowhere commutes

theorem commutes_forInitializer :
    Commutes move (movedOptionalStmt move) (forInitializer expression')
      (forInitializer expression) := by
  have options : Option.map (Stmt.moved move) = movedOptionalStmt move :=
    funext fun stmt => by cases stmt <;> rfl
  have declared := (commutes_varDeclaration nowhere commutes).map_some
  have evaluated := (commutes_expressionStatement nowhere commutes).map_some
  rw [options] at declared evaluated
  refine (Commutes.optionalSymbol _).bind fun semicolon => ?_
  cases semicolon with
  | some _ => exact .pure none
  | none => exact (Commutes.sees _).bind fun isVar => .ite isVar declared evaluated

theorem commutes_forCondition :
    Commutes move (Expr.moved move) (forCondition expression') (forCondition expression) :=
  (Commutes.sees _).bind fun absent =>
    .ite absent
      ((Commutes.nextSpan nowhere).bind fun span => .pure (Expr.literal (.boolean true) span))
        commutes

omit nowhere in
theorem commutes_forIncrement :
    Commutes move (movedOptionalExpr move) (forIncrement expression')
      (forIncrement expression) := by
  have options : Option.map (Expr.moved move) = movedOptionalExpr move :=
    funext fun expr => (movedOptionalExpr_eq_map move expr).symm
  have present := commutes.map_some
  rw [options] at present
  exact (Commutes.sees _).bind fun absent => .ite absent (.pure none) present

include commutesBranch

theorem commutes_ifStatement :
    Commutes move (Stmt.moved move) (ifStatement expression' statement')
      (ifStatement expression statement) := by
  refine (Commutes.skip nowhere).bind fun span => (Commutes.symbol _ _).bind fun _ =>
    commutes.bind fun condition => (Commutes.symbol _ _).bind fun _ =>
      commutesBranch.bind fun thenBranch => (Commutes.optional _).bind fun word => ?_
  cases word with
  | none => exact .pure (Stmt.conditional condition thenBranch none span)
  | some _ =>
      exact commutesBranch.map_some.bind fun elseBranch => by
        cases elseBranch with
        | none => exact .pure (Stmt.conditional condition thenBranch none span)
        | some elseBranch =>
            exact .pure (Stmt.conditional condition thenBranch (some elseBranch) span)

theorem commutes_whileStatement :
    Commutes move (Stmt.moved move) (whileStatement expression' statement')
      (whileStatement expression statement) :=
  (Commutes.skip nowhere).bind fun span => (Commutes.symbol _ _).bind fun _ =>
    commutes.bind fun condition => (Commutes.symbol _ _).bind fun _ =>
      commutesBranch.bind fun body => .pure (Stmt.loop condition body none span)

theorem commutes_forStatement :
    Commutes move (Stmt.moved move) (forStatement expression' statement')
      (forStatement expression statement) := by
  refine (Commutes.skip nowhere).bind fun span => (Commutes.symbol _ _).bind fun _ =>
    (commutes_forInitializer nowhere commutes).bind fun initializer =>
      (commutes_forCondition nowhere commutes).bind fun condition =>
        (Commutes.symbol _ _).bind fun _ =>
          (commutes_forIncrement commutes).bind fun increment =>
            (Commutes.symbol _ _).bind fun _ => commutesBranch.bind fun body => ?_
  have meaning : (forLoop initializer condition increment body span).moved move =
      forLoop (movedOptionalStmt move initializer) (condition.moved move)
        (movedOptionalExpr move increment) (body.moved move) (move span) := by
    cases initializer <;> rfl
  rw [← meaning]
  exact .pure (forLoop initializer condition increment body span)

end OfBoth

section OfDeclarations

variable (commutes : Commutes move (Stmt.moved move) declaration' declaration) (bound : Nat)
include commutes

theorem commutes_functionRest (role : String) (declared : Name) :
    Commutes move (movedFunction move) (functionRest role (declared.moved move) declaration' bound)
      (functionRest role declared declaration bound) :=
  (Commutes.symbol _ _).bind fun _ => (commutes_parameters bound).bind fun found =>
    (commutes_functionBody commutes bound role).bind fun body =>
      .pure (⟨declared, found, body, false⟩ : FunctionDeclaration)

theorem commutes_method :
    Commutes move (movedFunction move) (method declaration' bound) (method declaration bound) := by
  have getter (declared : Name) : Commutes move (movedFunction move)
      (do return ⟨declared.moved move, [], ← functionBody "method" declaration' bound, true⟩)
      (do return ⟨declared, [], ← functionBody "method" declaration bound, true⟩) :=
    (commutes_functionBody commutes bound "method").bind fun body =>
      .pure (⟨declared, [], body, true⟩ : FunctionDeclaration)
  exact (Commutes.name _).bind fun declared => (Commutes.sees _).bind fun isGetter =>
    .ite isGetter (getter declared) (commutes_functionRest commutes bound "method" declared)

include nowhere

theorem commutes_blockStatement :
    Commutes move (Stmt.moved move) (blockStatement declaration' bound)
      (blockStatement declaration bound) :=
  (Commutes.skip nowhere).bind fun span =>
    (commutes_blockRest commutes bound).bind fun statements =>
    .pure (Stmt.block statements span)

theorem commutes_functionDeclaration :
    Commutes move (Stmt.moved move) (functionDeclaration declaration' bound)
      (functionDeclaration declaration bound) :=
  (Commutes.skip nowhere).bind fun span => (Commutes.name _).bind fun declared =>
    (commutes_functionRest commutes bound "function" declared).bind fun function =>
      .pure (Stmt.function function span)

theorem commutes_classDeclaration :
    Commutes move (Stmt.moved move) (classDeclaration declaration' bound)
      (classDeclaration declaration bound) := by
  have inherits : Commutes move (Option.map (Reference.moved move)) superclass superclass :=
    (Commutes.optionalSymbol _).bind fun less => by
      cases less with
      | none => exact .pure none
      | some _ =>
          exact (Commutes.name _).bind fun parent => .pure (some (⟨parent, none⟩ : Reference))
  have lists : List.map (movedFunction move) = movedFunctions move :=
    funext fun functions => (movedFunctions_eq_map move functions).symm
  have methods := (commutes_method commutes bound).itemsUntil (·.isSymbol .rightBrace) bound
  rw [lists] at methods
  exact (Commutes.skip nowhere).bind fun span => (Commutes.name _).bind fun declared =>
    inherits.bind fun inherited => (Commutes.symbol _ _).bind fun _ => methods.bind fun methods =>
      (Commutes.symbol _ _).bind fun _ => .pure (Stmt.class declared inherited methods span)

end OfDeclarations

theorem commutes_seesNamedFunction : Commutes move id seesNamedFunction seesNamedFunction := by
  intro tokens
  match tokens with
  | [] => rfl
  | [_] => rfl
  | _ :: _ :: _ => rfl

include nowhere in
theorem commutes_statementOf (commutes : Commutes move (Expr.moved move) expression' expression)
    (commutesBranch : Commutes move (Stmt.moved move) statement' statement)
    (commutesItem : Commutes move (Stmt.moved move) declaration' declaration) (bound : Nat) :
    Commutes move (Stmt.moved move) (statementOf expression' statement' declaration' bound)
      (statementOf expression statement declaration bound) := by
  refine Commutes.peek.bind fun token => ?_
  have sameKind : (token.map (Token.moved move)).map Token.kind = token.map Token.kind := by
    cases token <;> rfl
  rw [sameKind]
  split
  · exact commutes_forStatement nowhere commutes commutesBranch
  · exact commutes_ifStatement nowhere commutes commutesBranch
  · exact commutes_printStatement nowhere commutes
  · exact commutes_returnStatement nowhere commutes
  · exact commutes_whileStatement nowhere commutes commutesBranch
  · exact commutes_jumpStatement nowhere .break fun _ => rfl
  · exact commutes_jumpStatement nowhere .continue fun _ => rfl
  · exact commutes_blockStatement nowhere commutesItem bound
  · exact commutes_expressionStatement nowhere commutes

include nowhere in
theorem commutes_declarationOf (commutes : Commutes move (Expr.moved move) expression' expression)
    (commutesBranch : Commutes move (Stmt.moved move) statement' statement)
    (commutesItem : Commutes move (Stmt.moved move) declaration' declaration) (bound : Nat) :
    Commutes move (Stmt.moved move) (declarationOf expression' statement' declaration' bound)
      (declarationOf expression statement declaration bound) :=
  (Commutes.sees _).bind fun isClass =>
    .ite isClass (commutes_classDeclaration nowhere commutesItem bound)
      (commutes_seesNamedFunction.bind fun isFunction =>
        .ite isFunction (commutes_functionDeclaration nowhere commutesItem bound)
          ((Commutes.sees _).bind fun isVar =>
            .ite isVar (commutes_varDeclaration nowhere commutes) commutesBranch))

end Statements

/-! ## The grammar -/

include nowhere in
/-- The rules nest each other: each commutes with moving if those that it nests do. -/
theorem commutes_constructs (bound : Nat) :
    (Commutes move (Expr.moved move) (expression bound) (expression bound) ∧
      Commutes move (Expr.moved move) (operand bound) (operand bound)) ∧
    Commutes move (Stmt.moved move) (statement bound) (statement bound) ∧
      Commutes move (Stmt.moved move) (declaration bound) (declaration bound) := by
  induction bound with
  | zero => exact ⟨⟨.fail _, .fail _⟩, .fail _, .fail _⟩
  | succ bound inductionHypothesis =>
      obtain ⟨⟨ofExpression, ofOperand⟩, ofStatement, ofDeclaration⟩ := inductionHypothesis
      have ofPrimary := commutes_primary nowhere ofExpression ofDeclaration bound
      exact ⟨⟨commutes_assignment (commutes_operations ofOperand bound Level.all) ofExpression,
          commutes_prefixed ofOperand (commutes_suffixed ofPrimary ofExpression bound)⟩,
        commutes_statementOf nowhere ofExpression ofStatement ofDeclaration bound,
        commutes_declarationOf nowhere ofExpression ofStatement ofDeclaration bound⟩

theorem resume_moved (tokens : List Token) :
    resume (tokens.map (Token.moved move)) = (resume tokens).map (Token.moved move) := by
  have behind (previous : Token) (tokens : List Token) :
      resumeBehind (previous.moved move) (tokens.map (Token.moved move)) =
        (resumeBehind previous tokens).map (Token.moved move) := by
    induction tokens generalizing previous with
    | nil => rfl
    | cons token rest inductionHypothesis =>
        have sameKind (token : Token) : (token.moved move).kind = token.kind := rfl
        simp only [List.map_cons, resumeBehind, sameKind]
        split
        · rfl
        · exact inductionHypothesis token
  cases tokens with
  | nil => rfl
  | cons token rest => exact behind token rest

/-- What is found is found at other places. -/
def Findings.moved (move : Span → Span) (findings : Findings) : Findings :=
  ⟨findings.statements.map (Stmt.moved move), findings.complaints.map (Complaint.moved move)⟩

include nowhere in
theorem declarations_moved (bound rounds : Nat) (tokens : List Token) :
    declarations bound rounds (tokens.map (Token.moved move)) =
      (declarations bound rounds tokens).moved move := by
  induction rounds generalizing tokens with
  | zero => cases tokens <;> rfl
  | succ rounds inductionHypothesis =>
      cases tokens with
      | nil => rfl
      | cons token rest =>
          have read := (commutes_constructs nowhere bound).2.2 (token :: rest)
          rw [List.map_cons] at read ⊢
          rcases answer : declaration bound (token :: rest) with ⟨complaint | found, left, notes⟩
          · rw [answer] at read
            simp only [declarations, read, answer, Reply.moved, resume_moved, inductionHypothesis,
              Findings.moved, List.map_append, List.map_cons]
          · rw [answer] at read
            simp only [declarations, read, answer, Reply.moved, inductionHypothesis,
              Findings.moved, List.map_append, List.map_cons]

include nowhere in
theorem commutes_bareExpression (bound : Nat) :
    Commutes move (Expr.moved move) (bareExpression bound) (bareExpression bound) :=
  (commutes_constructs nowhere bound).1.1.bind fun found => Commutes.atEnd.bind fun ended =>
    .ite ended (.pure found) (.fail _)

include nowhere in
theorem Text.of_moved (tokens : List Token) :
    Text.of (tokens.map (Token.moved move)) =
      ⟨(Text.of tokens).tokens.map (Token.moved move), move (Text.of tokens).finish⟩ := by
  have kinds (test : Token.Kind → Bool) :
      (fun token => test token.kind) ∘ Token.moved move = fun token : Token => test token.kind :=
        rfl
  have meaningful : Token.withoutComments (tokens.map (Token.moved move)) =
      (Token.withoutComments tokens).map (Token.moved move) := by
    simp only [Token.withoutComments, List.filter_map]
    rfl
  simp only [Text.of, meaningful, List.takeWhile_map, List.find?_map, List.getLast?_map]
  refine congrArg (Text.mk _) ?_
  have sameMark :
      (Token.withoutComments tokens).find? ((fun token => token.kind.isEnd) ∘ Token.moved move) =
        (Token.withoutComments tokens).find? fun token => token.kind.isEnd := rfl
  rw [sameMark]
  cases (Token.withoutComments tokens).find? fun token => token.kind.isEnd with
  | some mark => rfl
  | none =>
      cases (Token.withoutComments tokens).getLast? with
      | some token => rfl
      | none => exact nowhere.symm

end Rules

end Grammar

open Grammar

/-- What was read, changed, or what is wrong, at other places. -/
def movedReading {α : Type} (move : Span → Span) (change : α → α) :
    Except (List SyntaxError) α → Except (List SyntaxError) α
  | .ok found => .ok (change found)
  | .error errors => .error (errors.map (SyntaxError.moved move))

section Reading

variable {move : Span → Span} (nowhere : move .nowhere = .nowhere)
include nowhere

/-- From moved tokens the moved program is read, or the same is wrong at moved places. -/
theorem Program.ofTokens_moved (tokens : List Token) :
    Program.ofTokens (tokens.map (Token.moved move)) =
      movedReading move (Program.moved move) (Program.ofTokens tokens) := by
  have bound : boundFor ((Text.of tokens).tokens.map (Token.moved move)) =
      boundFor (Text.of tokens).tokens := by
    simp only [boundFor, List.length_map]
  simp only [Program.ofTokens, Text.of_moved nowhere, bound, List.length_map,
    declarations_moved nowhere, Findings.moved]
  cases (declarations (boundFor (Text.of tokens).tokens) (Text.of tokens).tokens.length
      (Text.of tokens).tokens).complaints with
  | nil => simp only [List.map_nil, movedReading, Program.moved, movedStmts_eq_map]
  | cons first rest =>
      simp only [movedReading, List.map_cons, List.map_map, Complaint.toError_moved,
        Function.comp_def]

/-- From moved tokens the moved expression is read, or the same is wrong at moved places. -/
theorem Expr.ofTokens_moved (tokens : List Token) :
    Expr.ofTokens (tokens.map (Token.moved move)) =
      movedReading move (Expr.moved move) (Expr.ofTokens tokens) := by
  have bound : boundFor ((Text.of tokens).tokens.map (Token.moved move)) =
      boundFor (Text.of tokens).tokens := by
    simp only [boundFor, List.length_map]
  have read := commutes_bareExpression nowhere (boundFor (Text.of tokens).tokens)
    (Text.of tokens).tokens
  simp only [Expr.ofTokens, Text.of_moved nowhere, bound, read]
  rcases bareExpression (boundFor (Text.of tokens).tokens) (Text.of tokens).tokens with
    ⟨complaint | found, rest, _ | ⟨first, notes⟩⟩
  · simp [Reply.moved, movedReading, Complaint.toError_moved]
  · simp [Reply.moved, movedReading, Complaint.toError_moved]
  · rfl
  · simp [Reply.moved, movedReading, Complaint.toError_moved]

end Reading

end Lox
