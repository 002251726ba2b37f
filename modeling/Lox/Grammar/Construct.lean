import Lox.Grammar.Statement

/-!
Contract: the grammar as a whole.

The rules for expressions and statements nest each other. A bound limits how
deep they may: it falls with every construct inside another, and the same bound
limits the rounds of every repetition. From one token to the next at most four
constructs open, so a bound of `boundFor` the tokens is never used up.
-/

namespace Lox.Grammar

/-- A bound that these tokens cannot use up. -/
def boundFor (tokens : List Token) : Nat := 4 * tokens.length + 4

mutual

/-- Reads an expression. -/
def expression : Nat → Parser Expr
  | 0 => Parser.fail .nesting
  | bound + 1 => assignment (operations bound (operand bound) Level.all) (expression bound)

/-- Reads an operand of the tightest operators. -/
def operand : Nat → Parser Expr
  | 0 => Parser.fail .nesting
  | bound + 1 =>
      prefixed (operand bound)
        (suffixed (primary (expression bound) (declaration bound) bound) (expression bound) bound)

/-- Reads a statement. -/
def statement : Nat → Parser Stmt
  | 0 => Parser.fail .nesting
  | bound + 1 => statementOf (expression bound) (statement bound) (declaration bound) bound

/-- Reads a declaration or a statement. -/
def declaration : Nat → Parser Stmt
  | 0 => Parser.fail .nesting
  | bound + 1 =>
      declarationOf (expression bound) (statement bound) (declaration bound) bound

end

end Lox.Grammar
