import Lox.Proofs.Printing.Pieces

/-!
Contract: every tree is printed as a piece.

The head of the piece says what the node is; the other parts are the pieces of the parts of the
node, and words for its names. A program is printed as the pieces of its statements, one in a line.

Main statement: `Program.toList_printed`.

Owns: the pieces of trees. Does not own: the trees of pieces.
-/

set_option autoImplicit false

namespace Lox

open Printing

/-! ## Pieces of trees -/

/-- A word as a piece. -/
def Printing.Piece.word (text : String) : Piece := .atom (.word text)

/-- A list of parts behind a head. -/
def Printing.Piece.node (head : String) (parts : List Piece) : Piece := .list (.word head :: parts)

/-- The piece that a literal is printed as. -/
def Literal.piece : Literal → Piece
  | .nil => .word "nil"
  | .boolean value => .word (if value then "true" else "false")
  | .number value => .atom (.number value)
  | .string value => .atom (.quoted value)

/-- The piece that parameters are printed as. -/
def parametersPiece (parameters : List Name) : Piece :=
  .list (parameters.map fun name => .word name.text)

/-- The pieces that stand between the name of a class and its methods. -/
def superclassPieces : Option Reference → List Piece
  | none => []
  | some superclass => [.word "<", .word superclass.name.text]

mutual

/-- The piece that the expression is printed as. -/
def Expr.piece : Expr → Piece
  | .literal value _ => value.piece
  | .grouping inner _ => .node "group" [inner.piece]
  | .variable reference => .word reference.name.text
  | .assign target value _ => .node "=" [.word target.name.text, value.piece]
  | .unary operator operand _ => .node operator.text [operand.piece]
  | .binary operator left right _ => .node operator.text [left.piece, right.piece]
  | .logical operator left right _ => .node operator.text [left.piece, right.piece]
  | .call callee arguments _ => .node "call" (callee.piece :: piecesOfExprs arguments)
  | .get object name => .node "." [object.piece, .word name.text]
  | .set object name value _ => .node "set" [object.piece, .word name.text, value.piece]
  | .this _ _ => .word "this"
  | .super _ method _ => .node "super" [.word method.text]
  | .lambda ⟨_, parameters, body, _⟩ =>
      .node "fun" (parametersPiece parameters :: piecesOfStmts body)

/-- The pieces that the expressions are printed as. -/
def piecesOfExprs : List Expr → List Piece
  | [] => []
  | expr :: rest => expr.piece :: piecesOfExprs rest

/-- The piece that the expression is printed as, if there is one. -/
def piecesOfOptionalExpr : Option Expr → List Piece
  | none => []
  | some expr => [expr.piece]

/-- The piece that the statement is printed as. -/
def Stmt.piece : Stmt → Piece
  | .expression value _ => .node ";" [value.piece]
  | .print value _ => .node "print" [value.piece]
  | .var name none _ => .node "var" [.word name.text]
  | .var name (some initializer) _ => .node "var" [.word name.text, .word "=", initializer.piece]
  | .block statements _ => .node "block" (piecesOfStmts statements)
  | .conditional condition thenBranch none _ => .node "if" [condition.piece, thenBranch.piece]
  | .conditional condition thenBranch (some elseBranch) _ =>
      .node "if-else" [condition.piece, thenBranch.piece, elseBranch.piece]
  | .loop condition body increment _ =>
      .node "while" (condition.piece :: body.piece :: piecesOfOptionalExpr increment)
  | .function declaration _ => pieceOfFunction declaration
  | .return value _ => .node "return" (piecesOfOptionalExpr value)
  | .class name superclass methods _ =>
      .node "class" (.word name.text :: (superclassPieces superclass ++ piecesOfFunctions methods))
  | .break _ => .node "break" []
  | .continue _ => .node "continue" []

/-- The pieces that the statements are printed as. -/
def piecesOfStmts : List Stmt → List Piece
  | [] => []
  | stmt :: rest => stmt.piece :: piecesOfStmts rest

/-- The piece that the named function, method or getter is printed as. -/
def pieceOfFunction : FunctionDeclaration → Piece
  | ⟨name, parameters, body, isGetter⟩ =>
      if isGetter then .node "getter" (.word name.text :: piecesOfStmts body)
      else .node "fun" (.word name.text :: parametersPiece parameters :: piecesOfStmts body)

/-- The pieces that the methods are printed as. -/
def piecesOfFunctions : List FunctionDeclaration → List Piece
  | [] => []
  | function :: rest => pieceOfFunction function :: piecesOfFunctions rest

end

/-! ## Texts of trees -/

section Texts

/-- What is printed behind a head. -/
theorem flatMap_toList_parts (parts : List String) :
    (parts.map (" " ++ ·)).flatMap String.toList =
      if parts = [] then [] else ' ' :: [' '].intercalate (parts.map String.toList) := by
  induction parts with
  | nil => rfl
  | cons part rest inductionHypothesis => simp [intercalate_cons, inductionHypothesis]

theorem toList_parenthesized (head : String) (parts : List String) :
    (parenthesized head parts).toList =
      '(' :: ([' '].intercalate (head.toList :: parts.map String.toList) ++ [')']) := by
  simp [parenthesized, intercalate_cons, flatMap_toList_parts]

@[simp] theorem chars_word (text : String) : (Piece.word text).chars = text.toList := by
  rw [Piece.word, Piece.chars, Atom.chars]

theorem chars_node (head : String) (parts : List Piece) :
    (Piece.node head parts).chars =
      '(' :: ([' '].intercalate (head.toList :: charsOfPieces parts) ++ [')']) := by
  rw [Piece.node, Piece.chars, charsOfPieces, chars_word]

theorem chars_parametersPiece (parameters : List Name) :
    (parametersPiece parameters).chars = (printedParameters parameters).toList := by
  simp [parametersPiece, printedParameters, Piece.chars, charsOfPieces_eq_map, Function.comp_def]

theorem toList_printed_literal (value : Literal) : value.printed.toList = value.piece.chars := by
  cases value with
  | nil => simp [Literal.printed, Literal.piece]
  | boolean value => cases value <;> simp [Literal.printed, Literal.piece]
  | number value => simp [Literal.printed, Literal.piece, Piece.chars, Atom.chars]
  | string value => simp [Literal.printed, Literal.piece, Piece.chars, Atom.chars]

theorem toList_printedClassHead (name : Name) (superclass : Option Reference)
    (rest : List (List Char)) :
    [' '].intercalate ((printedClassHead name superclass).toList :: rest) =
      [' '].intercalate ("class".toList :: name.text.toList ::
        (charsOfPieces (superclassPieces superclass) ++ rest)) := by
  cases superclass <;>
    simp [printedClassHead, superclassPieces, charsOfPieces, intercalate_cons]

theorem toList_printedHead (declaration : FunctionDeclaration) (rest : List (List Char)) :
    [' '].intercalate (declaration.printedHead.toList :: rest) =
      if declaration.isGetter then
        [' '].intercalate ("getter".toList :: declaration.name.text.toList :: rest)
      else
        [' '].intercalate ("fun".toList :: declaration.name.text.toList ::
          (parametersPiece declaration.parameters).chars :: rest) := by
  unfold Declaration.printedHead
  split
  · simp [intercalate_cons]
  · simp [intercalate_cons, chars_parametersPiece]

-- The equations are derived once here, not in each of the proofs below.
attribute [local simp] Expr.printed Expr.piece Stmt.printed Stmt.piece toList_parenthesized
  chars_node charsOfPieces

mutual

/-- The expression is printed as its piece. -/
theorem Expr.toList_printed : (expr : Expr) → expr.printed.toList = expr.piece.chars
  | .literal value _ => by simp [toList_printed_literal]
  | .grouping inner _ => by simp [inner.toList_printed]
  | .variable _ => by simp
  | .assign _ value _ => by simp [value.toList_printed]
  | .unary _ operand _ => by simp [operand.toList_printed]
  | .binary _ left right _ => by simp [left.toList_printed, right.toList_printed]
  | .logical _ left right _ => by simp [left.toList_printed, right.toList_printed]
  | .call callee arguments _ => by simp [callee.toList_printed, toList_printedExprs arguments]
  | .get object _ => by simp [object.toList_printed]
  | .set object _ value _ => by simp [object.toList_printed, value.toList_printed]
  | .this _ _ => by simp
  | .super _ _ _ => by simp
  | .lambda ⟨_, _, body, _⟩ => by simp [chars_parametersPiece, toList_printedStmts body]

theorem toList_printedExprs : (exprs : List Expr) →
    (printedExprs exprs).map String.toList = charsOfPieces (piecesOfExprs exprs)
  | [] => rfl
  | expr :: rest => by
      simp [printedExprs, piecesOfExprs, expr.toList_printed, toList_printedExprs rest]

theorem toList_printedOptionalExpr : (expr : Option Expr) →
    (printedOptionalExpr expr).map String.toList = charsOfPieces (piecesOfOptionalExpr expr)
  | none => rfl
  | some expr => by simp [printedOptionalExpr, piecesOfOptionalExpr, expr.toList_printed]

/-- The statement is printed as its piece. -/
theorem Stmt.toList_printed : (stmt : Stmt) → stmt.printed.toList = stmt.piece.chars
  | .expression value _ => by simp [value.toList_printed]
  | .print value _ => by simp [value.toList_printed]
  | .var _ none _ => by simp
  | .var _ (some initializer) _ => by simp [initializer.toList_printed]
  | .block statements _ => by simp [toList_printedStmts statements]
  | .conditional condition thenBranch none _ => by
      simp [condition.toList_printed, thenBranch.toList_printed]
  | .conditional condition thenBranch (some elseBranch) _ => by
      simp [condition.toList_printed, thenBranch.toList_printed, elseBranch.toList_printed]
  | .loop condition body increment _ => by
      simp [condition.toList_printed, body.toList_printed, toList_printedOptionalExpr increment]
  | .function declaration _ => by simp [toList_printedDeclaration declaration]
  | .return value _ => by simp [toList_printedOptionalExpr value]
  | .class _ _ methods _ => by
      simp [toList_printedClassHead, toList_printedDeclarations methods, charsOfPieces_eq_map]
  | .break _ => by simp
  | .continue _ => by simp

theorem toList_printedStmts : (stmts : List Stmt) →
    (printedStmts stmts).map String.toList = charsOfPieces (piecesOfStmts stmts)
  | [] => rfl
  | stmt :: rest => by
      simp [printedStmts, piecesOfStmts, stmt.toList_printed, toList_printedStmts rest]

theorem toList_printedDeclaration : (function : FunctionDeclaration) →
    (printedDeclaration function).toList = (pieceOfFunction function).chars
  | ⟨_, _, body, isGetter⟩ => by
      rw [printedDeclaration, toList_parenthesized, toList_printedHead, pieceOfFunction]
      cases isGetter <;> simp [toList_printedStmts body]

theorem toList_printedDeclarations : (functions : List FunctionDeclaration) →
    (printedDeclarations functions).map String.toList = charsOfPieces (piecesOfFunctions functions)
  | [] => rfl
  | function :: rest => by
      simp [printedDeclarations, piecesOfFunctions, toList_printedDeclaration function,
        toList_printedDeclarations rest]

end

/-- A program is printed as its pieces, one in a line. -/
theorem Program.toList_printed (program : Program) :
    program.printed.toList =
      ['\n'].intercalate ((piecesOfStmts program.statements).map Piece.chars) := by
  rw [Program.printed, String.toList_intercalate, toList_printedStmts, charsOfPieces_eq_map]
  rfl

end Texts

end Lox
