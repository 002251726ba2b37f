import Lox.Proofs.Binding.Cleared
import Lox.Proofs.Grammar.WellFormed
import Lox.Proofs.Lexeme.Longest
import Lox.Proofs.Places.Tree
import Lox.Proofs.Printing.Trees

/-!
Contract: printed trees are read back.

What a list of parts stands for is decided by its head and by how many parts there are; what a
word stands for, by whether it is reserved. So from the piece of a well-formed tree the tree is
found again, apart from its places and addresses.

Main statements: `Expr.reading_piece`, `readings_piecesOfStmts`.

Owns: the trees of pieces. Does not own: how text is cut into pieces.
-/

set_option autoImplicit false

namespace Lox

open Printing

/-! ## Trees of pieces -/

namespace Printing

/-- What a piece stands for where an expression, a statement, a function, a word or a list of
names is printed. -/
structure Reading where
  expr : Expr
  stmt : Stmt
  function : FunctionDeclaration
  word : String
  names : List Name

/-- The name, wherever it stands. -/
def nameOfWord (text : String) : Name := ⟨text, .nowhere⟩

/-- The use of the variable with this name. -/
def referenceOfWord (text : String) : Reference := ⟨nameOfWord text, none⟩

/-- The reading of a piece that stands for none of these things. -/
def Reading.none : Reading :=
  ⟨.this .none .nowhere, .break .nowhere, ⟨nameOfWord "", [], [], false⟩, "", []⟩

/-- The expression that is printed as a word. -/
def exprOfWord (text : String) : Expr :=
  if text = "nil" then .literal .nil .nowhere
  else if text = "true" then .literal (.boolean true) .nowhere
  else if text = "false" then .literal (.boolean false) .nowhere
  else if text = "this" then .this .none .nowhere
  else .variable (referenceOfWord text)

/-- The operators that are printed in front of two operands which are always evaluated. -/
def binaryOperators : List BinaryOperator :=
  [.add, .subtract, .multiply, .divide, .greater, .greaterEqual, .less, .lessEqual, .equal,
    .notEqual]

/-- The operation with this operator. -/
def operationOf (operator : String) (left right : Expr) : Expr :=
  match binaryOperators.find? fun candidate => candidate.text == operator with
  | some found => .binary found left right .nowhere
  | .none => .logical (if operator = "and" then .and else .or) left right .nowhere

/-- The expression that is printed as a list. -/
def exprOfNode (head : String) (parts : List Reading) : Expr :=
  match head, parts with
  | "group", [inner] => .grouping inner.expr .nowhere
  | "=", [target, value] => .assign (referenceOfWord target.word) value.expr .nowhere
  | "call", callee :: arguments => .call callee.expr (arguments.map Reading.expr) .nowhere
  | ".", [object, name] => .get object.expr (nameOfWord name.word)
  | "set", [object, name, value] => .set object.expr (nameOfWord name.word) value.expr .nowhere
  | "super", [method] => .super .none (nameOfWord method.word) .nowhere
  | "fun", parameters :: body =>
      .lambda ⟨nameOfWord "fun", parameters.names, body.map Reading.stmt, false⟩
  | "-", [operand] => .unary .negate operand.expr .nowhere
  | "!", [operand] => .unary .not operand.expr .nowhere
  | operator, [left, right] => operationOf operator left.expr right.expr
  | _, _ => Reading.none.expr

/-- The function, method or getter that is printed as a list. -/
def functionOfNode (head : String) (parts : List Reading) : FunctionDeclaration :=
  match head, parts with
  | "getter", name :: body => ⟨nameOfWord name.word, [], body.map Reading.stmt, true⟩
  | "fun", name :: parameters :: body =>
      ⟨nameOfWord name.word, parameters.names, body.map Reading.stmt, false⟩
  | _, _ => Reading.none.function

/-- The class that is printed as its name and these parts. -/
def classOfParts (name : Name) (parts : List Reading) : Stmt :=
  match parts with
  | mark :: superclass :: methods =>
      if mark.word = "<" then
        .class name (some (referenceOfWord superclass.word)) (methods.map Reading.function) .nowhere
      else .class name .none (parts.map Reading.function) .nowhere
  | _ => .class name .none (parts.map Reading.function) .nowhere

/-- The statement that is printed as a list. -/
def stmtOfNode (head : String) (parts : List Reading) : Stmt :=
  match head, parts with
  | ";", [value] => .expression value.expr .nowhere
  | "print", [value] => .print value.expr .nowhere
  | "var", [name] => .var (nameOfWord name.word) .none .nowhere
  | "var", [name, _, initializer] => .var (nameOfWord name.word) (some initializer.expr) .nowhere
  | "block", body => .block (body.map Reading.stmt) .nowhere
  | "if", [condition, thenBranch] => .conditional condition.expr thenBranch.stmt .none .nowhere
  | "if-else", [condition, thenBranch, elseBranch] =>
      .conditional condition.expr thenBranch.stmt (some elseBranch.stmt) .nowhere
  | "while", [condition, body] => .loop condition.expr body.stmt .none .nowhere
  | "while", [condition, body, increment] =>
      .loop condition.expr body.stmt (some increment.expr) .nowhere
  | "return", [] => .return .none .nowhere
  | "return", [value] => .return (some value.expr) .nowhere
  | "class", name :: rest => classOfParts (nameOfWord name.word) rest
  | "break", [] => .break .nowhere
  | "continue", [] => .continue .nowhere
  | _, _ => .function (functionOfNode head parts) .nowhere

/-- What an atom stands for. -/
def Atom.reading : Atom → Reading
  | .word text => { Reading.none with expr := exprOfWord text, word := text }
  | .number value => { Reading.none with expr := .literal (.number value) .nowhere }
  | .quoted value => { Reading.none with expr := .literal (.string value) .nowhere }

/-- What a list stands for. -/
def readingOfList : List Reading → Reading
  | [] => .none
  | head :: rest =>
      { expr := exprOfNode head.word rest
        stmt := stmtOfNode head.word rest
        function := functionOfNode head.word rest
        word := ""
        names := (head :: rest).map fun part => nameOfWord part.word }

mutual

/-- What a piece stands for. -/
def Piece.reading : Piece → Reading
  | .atom atom => atom.reading
  | .list parts => readingOfList (readingsOf parts)

/-- What pieces stand for, each on its own. -/
def readingsOf : List Piece → List Reading
  | [] => []
  | piece :: rest => piece.reading :: readingsOf rest

end

theorem readingsOf_eq_map (pieces : List Piece) : readingsOf pieces = pieces.map Piece.reading := by
  induction pieces with
  | nil => rfl
  | cons piece rest inductionHypothesis => simp [readingsOf, inductionHypothesis]

end Printing

/-! ## Spelled tokens -/

/-- Every token is written as its kind is spelled. -/
def Spelled (tokens : List Token) : Prop :=
  ∀ token ∈ tokens, token.kind = .endOfSource ∨ Lexeme.Spells token.lexeme.toList token.kind

section Spelled

variable {tokens : List Token}

theorem Spelled.identifier (spelled : Spelled tokens) {name : Name}
    (names : name.IsIdentifier tokens) : Lexeme.Spells name.text.toList .identifier := by
  obtain ⟨token, member, identifier, rfl⟩ := names
  obtain isEnd | spells := spelled token member
  · rw [identifier] at isEnd
    cases isEnd
  · rw [identifier] at spells
    exact spells

theorem Spelled.lambda (spelled : Spelled tokens) {name : Name}
    (names : name.Names tokens (· = .keyword .fun)) : name.text = "fun" := by
  obtain ⟨token, member, keyword, rfl⟩ := names
  obtain isEnd | spells := spelled token member
  · rw [keyword] at isEnd
    cases isEnd
  · rw [keyword] at spells
    generalize written : token.lexeme.toList = text at spells
    cases spells
    exact String.toList_inj.mp written

/-- What is spelled like an identifier is read as the use of a variable. -/
theorem exprOfWord_of_spells {text : String} (spells : Lexeme.Spells text.toList .identifier) :
    exprOfWord text = .variable (referenceOfWord text) := by
  have free (word : Keyword) : text ≠ word.text := by
    rintro rfl
    generalize written : word.text.toList = chars at spells
    cases spells with
    | identifier _ _ free => exact free word written
  have notNil : text ≠ "nil" := free .nil
  have notTrue : text ≠ "true" := free .true
  have notFalse : text ≠ "false" := free .false
  have notThis : text ≠ "this" := free .this
  rw [exprOfWord, if_neg notNil, if_neg notTrue, if_neg notFalse, if_neg notThis]

end Spelled

/-! ## Trees without places and addresses -/

/-- The expression without places and addresses. -/
def Expr.bare (expr : Expr) : Expr := (expr.moved fun _ => .nowhere).cleared

/-- The statement without places and addresses. -/
def Stmt.bare (stmt : Stmt) : Stmt := (stmt.moved fun _ => .nowhere).cleared

/-- The function without places and addresses. -/
def bareFunction (function : FunctionDeclaration) : FunctionDeclaration :=
  clearedFunction (movedFunction (fun _ => .nowhere) function)

/-- The program without places and addresses. -/
def Program.bare (program : Program) : Program := (program.moved fun _ => .nowhere).cleared

/-! ## Recovery -/

section Recovery

variable {tokens : List Token}

theorem reading_word (text : String) :
    (Piece.word text).reading =
      { Reading.none with expr := exprOfWord text, word := text } := by
  rw [Piece.word, Piece.reading, Atom.reading]

theorem reading_node (head : String) (parts : List Piece) :
    (Piece.node head parts).reading =
      { expr := exprOfNode head (readingsOf parts)
        stmt := stmtOfNode head (readingsOf parts)
        function := functionOfNode head (readingsOf parts)
        word := ""
        names := nameOfWord head :: (readingsOf parts).map fun part => nameOfWord part.word } := by
  rw [Piece.node, Piece.reading, readingsOf, readingOfList, reading_word]
  rfl

theorem names_parametersPiece (parameters : List Name) :
    (parametersPiece parameters).reading.names =
      parameters.map (Name.moved fun _ => .nowhere) := by
  rw [parametersPiece, Piece.reading, readingsOf_eq_map, List.map_map]
  cases parameters with
  | nil => rfl
  | cons first rest => simp [readingOfList, reading_word, nameOfWord, Name.moved]

theorem reading_literal (value : Literal) :
    value.piece.reading.expr = .literal value .nowhere := by
  cases value with
  | nil => rw [Literal.piece, reading_word]; rfl
  | boolean value => cases value <;> (rw [Literal.piece, reading_word]; rfl)
  | number value => rw [Literal.piece, Piece.reading, Atom.reading]
  | string value => rw [Literal.piece, Piece.reading, Atom.reading]

theorem exprOfNode_unary (operator : UnaryOperator) (operand : Reading) :
    exprOfNode operator.text [operand] = .unary operator operand.expr .nowhere := by
  cases operator <;> rfl

theorem exprOfNode_binary (operator : BinaryOperator) (left right : Reading) :
    exprOfNode operator.text [left, right] =
      .binary operator left.expr right.expr .nowhere := by
  cases operator <;> rfl

theorem exprOfNode_logical (operator : LogicalOperator) (left right : Reading) :
    exprOfNode operator.text [left, right] =
      .logical operator left.expr right.expr .nowhere := by
  cases operator <;> rfl

theorem classOfParts_of_lists (name : Name) {parts : List Reading}
    (lists : ∀ part ∈ parts, part.word = "") :
    classOfParts name parts = .class name none (parts.map Reading.function) .nowhere := by
  unfold classOfParts
  split
  · next mark superclass methods =>
      rw [lists mark List.mem_cons_self, if_neg (by decide)]
  · rfl

-- The equations are derived once here, not in each of the proofs below.
attribute [local simp] Expr.piece Stmt.piece reading_node reading_word readingsOf exprOfNode
  stmtOfNode functionOfNode nameOfWord referenceOfWord Expr.bare Stmt.bare Expr.moved Stmt.moved
  Expr.cleared Stmt.cleared Name.moved Reference.moved Reference.cleared

theorem word_pieceOfFunction (function : FunctionDeclaration) :
    (pieceOfFunction function).reading.word = "" := by
  obtain ⟨name, parameters, body, isGetter⟩ := function
  cases isGetter <;> simp [pieceOfFunction]

theorem words_piecesOfFunctions (methods : List FunctionDeclaration) :
    ∀ part ∈ readingsOf (piecesOfFunctions methods), part.word = "" := by
  induction methods with
  | nil => exact nofun
  | cons method rest inductionHypothesis =>
      exact List.forall_mem_cons.mpr ⟨word_pieceOfFunction method, inductionHypothesis⟩

/-- Where statements are printed, a function that is no getter stands for its declaration. -/
theorem stmt_pieceOfFunction {function : FunctionDeclaration}
    (notGetter : function.isGetter = false) :
    (pieceOfFunction function).reading.stmt =
      .function (pieceOfFunction function).reading.function .nowhere := by
  obtain ⟨name, parameters, body, isGetter⟩ := function
  obtain rfl : isGetter = false := notGetter
  simp [pieceOfFunction]

mutual

/-- An expression is found again from its piece. -/
theorem Expr.reading_piece (spelled : Spelled tokens) : (expr : Expr) → expr.WellFormed tokens →
    expr.piece.reading.expr = expr.bare
  | .literal _ _, _ => by simp [reading_literal]
  | .grouping inner _, formed => by simp [inner.reading_piece spelled formed]
  | .variable _, formed => by simp [exprOfWord_of_spells (spelled.identifier formed.2)]
  | .assign _ value _, formed => by simp [value.reading_piece spelled formed.2]
  | .unary _ operand _, formed => by
      simp [-exprOfNode, exprOfNode_unary, operand.reading_piece spelled formed.2]
  | .binary _ left right _, formed => by
      simp [-exprOfNode, exprOfNode_binary, left.reading_piece spelled formed.2.1,
        right.reading_piece spelled formed.2.2]
  | .logical _ left right _, formed => by
      simp [-exprOfNode, exprOfNode_logical, left.reading_piece spelled formed.2.1,
        right.reading_piece spelled formed.2.2]
  | .call callee arguments _, formed => by
      simp [callee.reading_piece spelled formed.1,
        readings_piecesOfExprs spelled arguments formed.2.2]
  | .get object _, formed => by simp [object.reading_piece spelled formed.1]
  | .set object _ value _, formed => by
      simp [object.reading_piece spelled formed.1, value.reading_piece spelled formed.2.2]
  | .this _ _, _ => by simp [exprOfWord]
  | .super _ _ _, _ => by simp
  | .lambda ⟨name, parameters, body, isGetter⟩, formed => by
      obtain ⟨names, notGetter, formedFunction⟩ := formed
      have isFun : name.text = "fun" := spelled.lambda names
      obtain rfl : isGetter = false := notGetter
      simp [names_parametersPiece, readings_piecesOfStmts spelled body formedFunction.2,
        movedFunction, clearedFunction, isFun]

theorem readings_piecesOfExprs (spelled : Spelled tokens) : (exprs : List Expr) →
    wellFormedExprs tokens exprs →
    (readingsOf (piecesOfExprs exprs)).map Reading.expr =
      clearedExprs (movedExprs (fun _ => .nowhere) exprs)
  | [], _ => rfl
  | expr :: rest, formed => by
      have first := expr.reading_piece spelled formed.1
      simp [piecesOfExprs, first, readings_piecesOfExprs spelled rest formed.2, movedExprs,
        clearedExprs]

/-- A statement is found again from its piece. -/
theorem Stmt.reading_piece (spelled : Spelled tokens) : (stmt : Stmt) → stmt.WellFormed tokens →
    stmt.piece.reading.stmt = stmt.bare
  | .expression value _, formed => by simp [value.reading_piece spelled formed]
  | .print value _, formed => by simp [value.reading_piece spelled formed]
  | .var _ none _, _ => by simp [movedOptionalExpr, clearedOptionalExpr]
  | .var _ (some initializer) _, formed => by
      simp [initializer.reading_piece spelled formed.2, movedOptionalExpr, clearedOptionalExpr]
  | .block statements _, formed => by
      simp [readings_piecesOfStmts spelled statements formed]
  | .conditional condition thenBranch none _, formed => by
      simp [condition.reading_piece spelled formed.1, thenBranch.reading_piece spelled formed.2.1.1,
        movedOptionalStmt, clearedOptionalStmt]
  | .conditional condition thenBranch (some elseBranch) _, formed => by
      simp [condition.reading_piece spelled formed.1, thenBranch.reading_piece spelled formed.2.1.1,
        elseBranch.reading_piece spelled formed.2.2.1, movedOptionalStmt, clearedOptionalStmt]
  | .loop condition body none _, formed => by
      simp [condition.reading_piece spelled formed.1, body.reading_piece spelled formed.2.1.1,
        piecesOfOptionalExpr, movedOptionalExpr, clearedOptionalExpr]
  | .loop condition body (some increment) _, formed => by
      simp [condition.reading_piece spelled formed.1, body.reading_piece spelled formed.2.1.1,
        increment.reading_piece spelled formed.2.2, piecesOfOptionalExpr, movedOptionalExpr,
        clearedOptionalExpr]
  | .function declaration _, formed => by
      have found := reading_pieceOfFunction spelled declaration formed.2.2 fun isGetter => by
        rw [formed.2.1] at isGetter
        cases isGetter
      simp [stmt_pieceOfFunction formed.2.1, found, bareFunction]
  | .return none _, _ => by simp [piecesOfOptionalExpr, movedOptionalExpr, clearedOptionalExpr]
  | .return (some value) _, formed => by
      simp [value.reading_piece spelled formed, piecesOfOptionalExpr, movedOptionalExpr,
        clearedOptionalExpr]
  | .class _ none methods _, formed => by
      simp [superclassPieces, classOfParts_of_lists _ (words_piecesOfFunctions methods),
        readings_piecesOfFunctions spelled methods formed.2.2]
  | .class _ (some _) methods _, formed => by
      simp [superclassPieces, classOfParts, readings_piecesOfFunctions spelled methods formed.2.2]
  | .break _, _ => by simp
  | .continue _, _ => by simp

theorem readings_piecesOfStmts (spelled : Spelled tokens) : (stmts : List Stmt) →
    wellFormedStmts tokens stmts →
    (readingsOf (piecesOfStmts stmts)).map Reading.stmt =
      clearedStmts (movedStmts (fun _ => .nowhere) stmts)
  | [], _ => rfl
  | stmt :: rest, formed => by
      have first := stmt.reading_piece spelled formed.1
      simp [piecesOfStmts, first, readings_piecesOfStmts spelled rest formed.2, movedStmts,
        clearedStmts]

/-- A function is found again from its piece. -/
theorem reading_pieceOfFunction (spelled : Spelled tokens) : (function : FunctionDeclaration) →
    wellFormedFunction tokens function →
    (function.isGetter = true → function.parameters = []) →
    (pieceOfFunction function).reading.function = bareFunction function
  | ⟨name, parameters, body, isGetter⟩, formed, noParameters => by
      have found := readings_piecesOfStmts spelled body formed.2
      cases isGetter with
      | false =>
          simp [pieceOfFunction, names_parametersPiece, found, bareFunction, movedFunction,
            clearedFunction]
      | true =>
          obtain rfl : parameters = [] := noParameters rfl
          simp [pieceOfFunction, found, bareFunction, movedFunction, clearedFunction]

theorem readings_piecesOfFunctions (spelled : Spelled tokens) :
    (methods : List FunctionDeclaration) → wellFormedMethods tokens methods →
    (readingsOf (piecesOfFunctions methods)).map Reading.function =
      clearedFunctions (movedFunctions (fun _ => .nowhere) methods)
  | [], _ => rfl
  | method :: rest, formed => by
      have first := reading_pieceOfFunction spelled method formed.1.2.2 formed.1.2.1
      rw [bareFunction] at first
      simp [piecesOfFunctions, first, readings_piecesOfFunctions spelled rest formed.2,
        movedFunctions, clearedFunctions]

end

end Recovery

end Lox
