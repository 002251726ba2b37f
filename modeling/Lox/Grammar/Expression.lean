import Lox.Grammar.Parser

/-!
Contract: the grammar of expressions, one rule at a time.

From the loosest to the tightest: assignment, which groups to the right and
whose target is judged after it was read; six levels of operators that group to
the left; prefix operators; calls and properties; and the primary expressions,
among them anonymous functions.

Every rule takes the parsers of the constructs that it nests, so that no rule
calls itself; `Lox.Grammar.Construct` ties them together.
-/

namespace Lox.Grammar

open Lox.Parser

/-- An operator between two operands. -/
inductive Connective where
  | logical (operator : LogicalOperator)
  | binary (operator : BinaryOperator)
deriving DecidableEq, Repr

/-- The operation of a connective, whose operator has this span. -/
def Connective.join (left : Expr) (span : Span) (right : Expr) : Connective → Expr
  | .logical operator => .logical operator left right span
  | .binary operator => .binary operator left right span

/-- Levels of precedence. -/
inductive Level where
  | or | and | equality | comparison | term | factor
deriving DecidableEq, Repr

/-- The levels from the loosest to the tightest. -/
def Level.all : List Level := [.or, .and, .equality, .comparison, .term, .factor]

/-- The connective of this level that a kind of token stands for. -/
def Level.connective? : Level → Token.Kind → Option Connective
  | .or, .keyword .or => some (.logical .or)
  | .and, .keyword .and => some (.logical .and)
  | .equality, .symbol .bangEqual => some (.binary .notEqual)
  | .equality, .symbol .equalEqual => some (.binary .equal)
  | .comparison, .symbol .greater => some (.binary .greater)
  | .comparison, .symbol .greaterEqual => some (.binary .greaterEqual)
  | .comparison, .symbol .less => some (.binary .less)
  | .comparison, .symbol .lessEqual => some (.binary .lessEqual)
  | .term, .symbol .minus => some (.binary .subtract)
  | .term, .symbol .plus => some (.binary .add)
  | .factor, .symbol .slash => some (.binary .divide)
  | .factor, .symbol .star => some (.binary .multiply)
  | _, _ => none

/-- The prefix operator that a kind of token stands for. -/
def unaryOperator? : Token.Kind → Option UnaryOperator
  | .symbol .bang => some .not
  | .symbol .minus => some .negate
  | _ => none

/-- Reads what follows the first operand of a level: operators of the level and
further operands, grouping to the left. -/
def operands (level : Level) (operand : Parser Expr) : Nat → Expr → Parser Expr
  | 0, _ => fail .nesting
  | bound + 1, left => do
      match ← optionalAs level.connective? with
      | none => return left
      | some (connective, span) => do
          let right ← operand
          operands level operand bound (connective.join left span right)

/-- Reads an expression of these levels around a tighter one. -/
def operations (bound : Nat) (tightest : Parser Expr) : List Level → Parser Expr
  | [] => tightest
  | level :: tighter => do
      let first ← operations bound tightest tighter
      operands level (operations bound tightest tighter) bound first

/-- Reads an assignment or what may stand on its left. A target that is neither
a variable nor a property is noted, and the left side is kept. -/
def assignment (left value : Parser Expr) : Parser Expr := do
  let target ← left
  match ← optionalSymbol .equal with
  | none => return target
  | some equals => do
      let value ← value
      match target with
      | .variable reference => return .assign ⟨reference.name, none⟩ value equals.span
      | .get object name => return .set object name value equals.span
      | other => do
          note .assignmentTarget (some equals)
          return other

/-- Reads an operand behind a prefix operator, or a tighter expression. -/
def prefixed (operand tighter : Parser Expr) : Parser Expr := do
  match ← optionalAs unaryOperator? with
  | some (operator, span) => return .unary operator (← operand) span
  | none => tighter

/-- Reads the argument lists and the properties behind an expression. -/
def suffixes (argument : Parser Expr) : Nat → Expr → Parser Expr
  | 0, _ => fail .nesting
  | bound + 1, head => do
      match ← optionalSymbol .leftParen with
      | some _ => do
          let (found, closing) ← parenthesizedItems "arguments" argument bound
          suffixes argument bound (.call head found closing.span)
      | none =>
          match ← optionalSymbol .dot with
          | some _ => do
              let token ← require Token.Kind.isIdentifier .property
              suffixes argument bound (.get head ⟨token.lexeme, token.span⟩)
          | none => return head

/-- Reads an expression with the argument lists and the properties behind it. -/
def suffixed (head argument : Parser Expr) (bound : Nat) : Parser Expr := do
  suffixes argument bound (← head)

/-- Reads statements up to the closing brace; the opening one is behind. -/
def blockRest (item : Parser Stmt) (bound : Nat) : Parser (List Stmt) := do
  let statements ← itemsUntil (·.isSymbol .rightBrace) item bound
  let _ ← symbol .rightBrace "after block"
  return statements

/-- Reads the body of such a function. -/
def functionBody (role : String) (item : Parser Stmt) (bound : Nat) : Parser (List Stmt) := do
  let _ ← symbol .leftBrace ("before " ++ role ++ " body")
  blockRest item bound

/-- Reads parameters and their closing parenthesis; the opening one is behind. -/
def parameters (bound : Nat) : Parser (List Name) := do
  return (← parenthesizedItems "parameters" (name "parameter") bound).1

/-- Reads what follows the word `fun` of an anonymous function. -/
def lambdaRest (word : Name) (item : Parser Stmt) (bound : Nat) : Parser Expr := do
  let _ ← symbol .leftParen "after 'fun'"
  let found ← parameters bound
  return .lambda ⟨word, found, ← functionBody "function" item bound, false⟩

/-- Reads what follows the opening parenthesis of a grouping. -/
def groupingRest (inner : Parser Expr) (span : Span) : Parser Expr := do
  let found ← inner
  let _ ← symbol .rightParen "after expression"
  return .grouping found span

/-- Reads what follows the word `super`. -/
def superRest (span : Span) : Parser Expr := do
  let _ ← symbol .dot "after 'super'"
  return .super none (← name "superclass method") span

/-- Reads an expression that no operator, call or property divides. -/
def primary (inner : Parser Expr) (item : Parser Stmt) (bound : Nat) : Parser Expr := do
  match ← peek with
  | none => fail .expression
  | some token =>
      match token.kind with
      | .keyword .false => do
          return .literal (.boolean false) (← skip)
      | .keyword .true => do
          return .literal (.boolean true) (← skip)
      | .keyword .nil => do
          return .literal .nil (← skip)
      | .number value => do
          return .literal (.number value) (← skip)
      | .string value => do
          return .literal (.string value) (← skip)
      | .keyword .super => do
          superRest (← skip)
      | .keyword .this => do
          return .this none (← skip)
      | .identifier => do
          return .variable ⟨⟨token.lexeme, ← skip⟩, none⟩
      | .symbol .leftParen => do
          groupingRest inner (← skip)
      | .keyword .fun => do
          lambdaRest ⟨token.lexeme, ← skip⟩ item bound
      | _ => fail .expression

end Lox.Grammar
