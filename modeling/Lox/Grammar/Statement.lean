import Lox.Grammar.Expression

/-!
Contract: the grammar of statements and declarations, one rule at a time.

The branches of `if`, `while` and `for` are statements; declarations stand only
in a program, a block or a body. An `else` belongs to the nearest `if`. A `for`
becomes a loop with an increment, in a block with its initializer if it has one.

Every rule takes the parsers of the constructs that it nests.
-/

namespace Lox.Grammar

open Lox.Parser

/-- Reads a semicolon, which stands at this place of a construct. -/
def semicolon (place : String) : Parser Token := symbol .semicolon place

/-- Reads an expression statement. -/
def expressionStatement (expression : Parser Expr) : Parser Stmt := do
  let span ← nextSpan
  let value ← expression
  let _ ← semicolon "after expression"
  return .expression value span

/-- Reads a print statement. -/
def printStatement (expression : Parser Expr) : Parser Stmt := do
  let span ← skip
  let value ← expression
  let _ ← semicolon "after value"
  return .print value span

/-- Reads the declaration of a variable. -/
def varDeclaration (expression : Parser Expr) : Parser Stmt := do
  let span ← skip
  let declared ← name "variable"
  let initializer ←
    match ← optionalSymbol .equal with
    | some _ => some <$> expression
    | none => pure none
  let _ ← semicolon "after variable declaration"
  return .var declared initializer span

/-- Reads a statement that consists of one word. -/
def jumpStatement (word : Keyword) (node : Span → Stmt) : Parser Stmt := do
  let span ← skip
  let _ ← semicolon ("after '" ++ word.text ++ "'")
  return node span

/-- Reads a return statement. -/
def returnStatement (expression : Parser Expr) : Parser Stmt := do
  let span ← skip
  let value ←
    if ← sees (·.isSymbol .semicolon) then pure none
    else some <$> expression
  let _ ← semicolon "after return value"
  return .return value span

/-- Reads an `if` statement. -/
def ifStatement (expression : Parser Expr) (statement : Parser Stmt) : Parser Stmt := do
  let span ← skip
  let _ ← symbol .leftParen "after 'if'"
  let condition ← expression
  let _ ← symbol .rightParen "after if condition"
  let thenBranch ← statement
  let elseBranch ←
    match ← optional (·.isKeyword .else) with
    | some _ => some <$> statement
    | none => pure none
  return .conditional condition thenBranch elseBranch span

/-- Reads a `while` statement. -/
def whileStatement (expression : Parser Expr) (statement : Parser Stmt) : Parser Stmt := do
  let span ← skip
  let _ ← symbol .leftParen "after 'while'"
  let condition ← expression
  let _ ← symbol .rightParen "after condition"
  return .loop condition (← statement) none span

/-- Reads the initializer of a `for` statement and its semicolon. -/
def forInitializer (expression : Parser Expr) : Parser (Option Stmt) := do
  match ← optionalSymbol .semicolon with
  | some _ => return none
  | none =>
      if ← sees (·.isKeyword .var) then some <$> varDeclaration expression
      else some <$> expressionStatement expression

/-- Reads the condition of a `for` statement. An absent one is true, and stands
where the semicolon stands. -/
def forCondition (expression : Parser Expr) : Parser Expr := do
  if ← sees (·.isSymbol .semicolon) then return .literal (.boolean true) (← nextSpan)
  else expression

/-- Reads the increment of a `for` statement. -/
def forIncrement (expression : Parser Expr) : Parser (Option Expr) := do
  if ← sees (·.isSymbol .rightParen) then return none
  else some <$> expression

/-- The loop that a `for` statement means. -/
def forLoop (initializer : Option Stmt) (condition : Expr) (increment : Option Expr)
    (body : Stmt) (span : Span) : Stmt :=
  let repeated := .loop condition body increment span
  match initializer with
  | some first => .block [first, repeated] span
  | none => repeated

/-- Reads a `for` statement. -/
def forStatement (expression : Parser Expr) (statement : Parser Stmt) : Parser Stmt := do
  let span ← skip
  let _ ← symbol .leftParen "after 'for'"
  let initializer ← forInitializer expression
  let condition ← forCondition expression
  let _ ← semicolon "after loop condition"
  let increment ← forIncrement expression
  let _ ← symbol .rightParen "after for clauses"
  return forLoop initializer condition increment (← statement) span

/-- Reads a block. -/
def blockStatement (declaration : Parser Stmt) (bound : Nat) : Parser Stmt := do
  let span ← skip
  return .block (← blockRest declaration bound) span

/-- Reads a statement; the next token says which. -/
def statementOf (expression : Parser Expr) (statement declaration : Parser Stmt) (bound : Nat) :
    Parser Stmt := do
  match (← peek).map Token.kind with
  | some (.keyword .for) => forStatement expression statement
  | some (.keyword .if) => ifStatement expression statement
  | some (.keyword .print) => printStatement expression
  | some (.keyword .return) => returnStatement expression
  | some (.keyword .while) => whileStatement expression statement
  | some (.keyword .break) => jumpStatement .break .break
  | some (.keyword .continue) => jumpStatement .continue .continue
  | some (.symbol .leftBrace) => blockStatement declaration bound
  | _ => expressionStatement expression

/-- Reads the parameters and the body of a function or method. -/
def functionRest (role : String) (declared : Name) (declaration : Parser Stmt) (bound : Nat) :
    Parser FunctionDeclaration := do
  let _ ← symbol .leftParen ("after " ++ role ++ " name")
  let found ← parameters bound
  return ⟨declared, found, ← functionBody role declaration bound, false⟩

/-- Reads the declaration of a function. -/
def functionDeclaration (declaration : Parser Stmt) (bound : Nat) : Parser Stmt := do
  let span ← skip
  let declared ← name "function"
  return .function (← functionRest "function" declared declaration bound) span

/-- Reads a method, or a getter where a body follows the name at once. -/
def method (declaration : Parser Stmt) (bound : Nat) : Parser FunctionDeclaration := do
  let declared ← name "method"
  if ← sees (·.isSymbol .leftBrace) then
    return ⟨declared, [], ← functionBody "method" declaration bound, true⟩
  else functionRest "method" declared declaration bound

/-- Reads the superclass of a class, if there is one. -/
def superclass : Parser (Option Reference) := do
  match ← optionalSymbol .less with
  | some _ => return some ⟨← name "superclass", none⟩
  | none => return none

/-- Reads the declaration of a class. -/
def classDeclaration (declaration : Parser Stmt) (bound : Nat) : Parser Stmt := do
  let span ← skip
  let declared ← name "class"
  let inherited ← superclass
  let _ ← symbol .leftBrace "before class body"
  let methods ← itemsUntil (·.isSymbol .rightBrace) (method declaration bound) bound
  let _ ← symbol .rightBrace "after class body"
  return .class declared inherited methods span

/-- Whether a named function begins here: the word `fun` and an identifier. -/
def seesNamedFunction : Parser Bool := fun tokens =>
  match tokens with
  | first :: second :: _ =>
      ⟨.ok (first.kind.isKeyword .fun && second.kind.isIdentifier), tokens, []⟩
  | _ => ⟨.ok false, tokens, []⟩

/-- Reads a declaration or a statement. -/
def declarationOf (expression : Parser Expr) (statement declaration : Parser Stmt) (bound : Nat) :
    Parser Stmt := do
  if ← sees (·.isKeyword .class) then classDeclaration declaration bound
  else if ← seesNamedFunction then functionDeclaration declaration bound
  else if ← sees (·.isKeyword .var) then varDeclaration expression
  else statement

end Lox.Grammar
