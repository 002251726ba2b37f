import Lox.Proofs.Places.Tree

/-!
Contract: trees in another spelling.

A spelling says where things stand and what local variables are called. A use of a local variable
has an address, and its declaration, inside some environment, takes the next slot there: the name
is for the reader. Names of globals, functions, classes and properties can be seen in a run, and
are kept.

A tree that is respelled twice is respelled once, and where all names are kept it is moved. So
a tree that is moved twice is moved once.

Owns: spellings, respelled names, trees and lists of trees, their laws, and those of moved trees
that follow. Does not own: which names may be changed without changing what they are bound to.
-/

set_option autoImplicit false

namespace Lox

/-- Where things stand, and what local variables are called. -/
structure Spelling where
  place : Span → Span
  word : String → String

namespace Spelling

/-- Other places, and the same names. -/
def moving (move : Span → Span) : Spelling := ⟨move, id⟩

/-- One spelling after another. -/
def after (second first : Spelling) : Spelling :=
  ⟨second.place ∘ first.place, second.word ∘ first.word⟩

end Spelling

/-- The name in another spelling; only that of a local variable is changed. -/
def Name.respelled (spelling : Spelling) (isLocal : Bool) (name : Name) : Name :=
  ⟨if isLocal then spelling.word name.text else name.text, spelling.place name.span⟩

/-- The use of a variable in another spelling. -/
def Reference.respelled (spelling : Spelling) (reference : Reference) : Reference :=
  ⟨reference.name.respelled spelling reference.address.isSome, reference.address⟩

mutual

/-- The expression in another spelling. -/
def Expr.respelled (spelling : Spelling) : Expr → Expr
  | .literal value span => .literal value (spelling.place span)
  | .grouping inner span => .grouping (inner.respelled spelling) (spelling.place span)
  | .variable reference => .variable (reference.respelled spelling)
  | .assign target value span =>
      .assign (target.respelled spelling) (value.respelled spelling) (spelling.place span)
  | .unary operator operand span =>
      .unary operator (operand.respelled spelling) (spelling.place span)
  | .binary operator left right span =>
      .binary operator (left.respelled spelling) (right.respelled spelling) (spelling.place span)
  | .logical operator left right span =>
      .logical operator (left.respelled spelling) (right.respelled spelling) (spelling.place span)
  | .call callee arguments span =>
      .call (callee.respelled spelling) (respelledExprs spelling arguments) (spelling.place span)
  | .get object name => .get (object.respelled spelling) (name.moved spelling.place)
  | .set object name value span =>
      .set (object.respelled spelling) (name.moved spelling.place) (value.respelled spelling)
        (spelling.place span)
  | .this address span => .this address (spelling.place span)
  | .super address method span =>
      .super address (method.moved spelling.place) (spelling.place span)
  | .lambda function => .lambda (respelledFunction spelling function)

/-- The expressions in another spelling. -/
def respelledExprs (spelling : Spelling) : List Expr → List Expr
  | [] => []
  | expr :: rest => expr.respelled spelling :: respelledExprs spelling rest

/-- The expression, if there is one, in another spelling. -/
def respelledOptionalExpr (spelling : Spelling) : Option Expr → Option Expr
  | none => none
  | some expr => some (expr.respelled spelling)

/-- The statement in another spelling. It says whether the statement is inside some scope. -/
def Stmt.respelled (spelling : Spelling) (inside : Bool) : Stmt → Stmt
  | .expression value span => .expression (value.respelled spelling) (spelling.place span)
  | .print value span => .print (value.respelled spelling) (spelling.place span)
  | .var name initializer span =>
      .var (name.respelled spelling inside) (respelledOptionalExpr spelling initializer)
        (spelling.place span)
  | .block statements span => .block (respelledStmts spelling true statements) (spelling.place span)
  | .conditional condition thenBranch elseBranch span =>
      .conditional (condition.respelled spelling) (thenBranch.respelled spelling inside)
        (respelledOptionalStmt spelling inside elseBranch) (spelling.place span)
  | .loop condition body increment span =>
      .loop (condition.respelled spelling) (body.respelled spelling inside)
        (respelledOptionalExpr spelling increment) (spelling.place span)
  | .function declaration span =>
      .function (respelledFunction spelling declaration) (spelling.place span)
  | .return value span => .return (respelledOptionalExpr spelling value) (spelling.place span)
  | .class name superclass methods span =>
      .class (name.moved spelling.place) (superclass.map (Reference.respelled spelling))
        (respelledFunctions spelling methods) (spelling.place span)
  | .break span => .break (spelling.place span)
  | .continue span => .continue (spelling.place span)

/-- The statement, if there is one, in another spelling. -/
def respelledOptionalStmt (spelling : Spelling) (inside : Bool) : Option Stmt → Option Stmt
  | none => none
  | some stmt => some (stmt.respelled spelling inside)

/-- The statements in another spelling. -/
def respelledStmts (spelling : Spelling) (inside : Bool) : List Stmt → List Stmt
  | [] => []
  | stmt :: rest => stmt.respelled spelling inside :: respelledStmts spelling inside rest

/-- The function in another spelling. -/
def respelledFunction (spelling : Spelling) : FunctionDeclaration → FunctionDeclaration
  | ⟨name, parameters, body, isGetter⟩ =>
      ⟨name.moved spelling.place, parameters.map (Name.respelled spelling true),
        respelledStmts spelling true body, isGetter⟩

/-- The functions in another spelling. -/
def respelledFunctions (spelling : Spelling) : List FunctionDeclaration → List FunctionDeclaration
  | [] => []
  | function :: rest => respelledFunction spelling function :: respelledFunctions spelling rest

end

/-! ## Parts -/

section Parts

variable (spelling : Spelling)

@[simp] theorem Name.respelled_false (name : Name) :
    name.respelled spelling false = name.moved spelling.place := rfl

@[simp] theorem Name.respelled_span (isLocal : Bool) (name : Name) :
    (name.respelled spelling isLocal).span = spelling.place name.span := rfl

@[simp] theorem Reference.respelled_address (reference : Reference) :
    (reference.respelled spelling).address = reference.address := rfl

@[simp] theorem Reference.respelled_span (reference : Reference) :
    (reference.respelled spelling).name.span = spelling.place reference.name.span := rfl

/-- The name of a global is kept. -/
theorem Reference.respelled_text_of_unbound {reference : Reference}
    (unbound : reference.address = none) :
    (reference.respelled spelling).name.text = reference.name.text := by
  simp [Reference.respelled, Name.respelled, unbound]

variable (function : FunctionDeclaration)

@[simp] theorem respelledFunction_name :
    (respelledFunction spelling function).name = function.name.moved spelling.place := by
  cases function
  rfl

@[simp] theorem respelledFunction_parameters :
    (respelledFunction spelling function).parameters =
      function.parameters.map (Name.respelled spelling true) := by
  cases function
  rfl

@[simp] theorem respelledFunction_body :
    (respelledFunction spelling function).body = respelledStmts spelling true function.body := by
  cases function
  rfl

@[simp] theorem respelledFunction_isGetter :
    (respelledFunction spelling function).isGetter = function.isGetter := by
  cases function
  rfl

@[simp] theorem respelledFunction_isInitializer :
    (respelledFunction spelling function).isInitializer = function.isInitializer := by
  simp [Declaration.isInitializer]

end Parts

/-! ## Laws -/

section Laws

variable (first second : Spelling)

@[simp] theorem Name.respelled_respelled (isLocal : Bool) (name : Name) :
    (name.respelled first isLocal).respelled second isLocal =
      name.respelled (second.after first) isLocal := by
  cases isLocal <;> rfl

@[simp] theorem Name.moved_after (name : Name) :
    (name.moved first.place).moved second.place = name.moved (second.after first).place := rfl

@[simp] theorem Reference.respelled_respelled (reference : Reference) :
    (reference.respelled first).respelled second = reference.respelled (second.after first) :=
  congrArg (Reference.mk · reference.address)
    (reference.name.respelled_respelled first second reference.address.isSome)

mutual

/-- To respell twice is to respell once. -/
theorem Expr.respelled_respelled : (expr : Expr) →
    (expr.respelled first).respelled second = expr.respelled (second.after first)
  | .literal _ _ => rfl
  | .grouping inner _ => by simp [Expr.respelled, inner.respelled_respelled, Spelling.after]
  | .variable reference => by simp [Expr.respelled]
  | .assign _ value _ => by simp [Expr.respelled, value.respelled_respelled, Spelling.after]
  | .unary _ operand _ => by simp [Expr.respelled, operand.respelled_respelled, Spelling.after]
  | .binary _ left right _ => by
      simp [Expr.respelled, left.respelled_respelled, right.respelled_respelled, Spelling.after]
  | .logical _ left right _ => by
      simp [Expr.respelled, left.respelled_respelled, right.respelled_respelled, Spelling.after]
  | .call callee arguments _ => by
      simp [Expr.respelled, callee.respelled_respelled, respelledExprs_respelledExprs arguments,
        Spelling.after]
  | .get object _ => by simp [Expr.respelled, object.respelled_respelled]
  | .set object _ value _ => by
      simp [Expr.respelled, object.respelled_respelled, value.respelled_respelled, Spelling.after]
  | .this _ _ => rfl
  | .super _ _ _ => rfl
  | .lambda function => by simp [Expr.respelled, respelledFunction_respelledFunction function]

theorem respelledExprs_respelledExprs : (exprs : List Expr) →
    respelledExprs second (respelledExprs first exprs) = respelledExprs (second.after first) exprs
  | [] => rfl
  | expr :: rest => by
      simp [respelledExprs, expr.respelled_respelled, respelledExprs_respelledExprs rest]

theorem respelledOptionalExpr_respelledOptionalExpr : (expr : Option Expr) →
    respelledOptionalExpr second (respelledOptionalExpr first expr) =
      respelledOptionalExpr (second.after first) expr
  | none => rfl
  | some expr => by simp [respelledOptionalExpr, expr.respelled_respelled]

/-- To respell twice is to respell once. -/
theorem Stmt.respelled_respelled (inside : Bool) : (stmt : Stmt) →
    (stmt.respelled first inside).respelled second inside =
      stmt.respelled (second.after first) inside
  | .expression value _ => by simp [Stmt.respelled, value.respelled_respelled, Spelling.after]
  | .print value _ => by simp [Stmt.respelled, value.respelled_respelled, Spelling.after]
  | .var _ initializer _ => by
      simp [Stmt.respelled, respelledOptionalExpr_respelledOptionalExpr initializer, Spelling.after]
  | .block statements _ => by
      simp [Stmt.respelled, respelledStmts_respelledStmts true statements, Spelling.after]
  | .conditional condition thenBranch elseBranch _ => by
      simp [Stmt.respelled, condition.respelled_respelled, thenBranch.respelled_respelled inside,
        respelledOptionalStmt_respelledOptionalStmt inside elseBranch, Spelling.after]
  | .loop condition body increment _ => by
      simp [Stmt.respelled, condition.respelled_respelled, body.respelled_respelled inside,
        respelledOptionalExpr_respelledOptionalExpr increment, Spelling.after]
  | .function declaration _ => by
      simp [Stmt.respelled, respelledFunction_respelledFunction declaration, Spelling.after]
  | .return value _ => by
      simp [Stmt.respelled, respelledOptionalExpr_respelledOptionalExpr value, Spelling.after]
  | .class _ superclass methods _ => by
      cases superclass <;>
        simp [Stmt.respelled, respelledFunctions_respelledFunctions methods, Spelling.after]
  | .break _ => rfl
  | .continue _ => rfl

theorem respelledOptionalStmt_respelledOptionalStmt (inside : Bool) : (stmt : Option Stmt) →
    respelledOptionalStmt second inside (respelledOptionalStmt first inside stmt) =
      respelledOptionalStmt (second.after first) inside stmt
  | none => rfl
  | some stmt => by simp [respelledOptionalStmt, stmt.respelled_respelled inside]

theorem respelledStmts_respelledStmts (inside : Bool) : (stmts : List Stmt) →
    respelledStmts second inside (respelledStmts first inside stmts) =
      respelledStmts (second.after first) inside stmts
  | [] => rfl
  | stmt :: rest => by
      simp [respelledStmts, stmt.respelled_respelled inside,
        respelledStmts_respelledStmts inside rest]

theorem respelledFunction_respelledFunction : (function : FunctionDeclaration) →
    respelledFunction second (respelledFunction first function) =
      respelledFunction (second.after first) function
  | ⟨_, parameters, body, _⟩ => by
      simp [respelledFunction, respelledStmts_respelledStmts true body]

theorem respelledFunctions_respelledFunctions : (functions : List FunctionDeclaration) →
    respelledFunctions second (respelledFunctions first functions) =
      respelledFunctions (second.after first) functions
  | [] => rfl
  | function :: rest => by
      simp [respelledFunctions, respelledFunction_respelledFunction function,
        respelledFunctions_respelledFunctions rest]

end

end Laws

/-! ## The same names -/

section Moving

variable (move : Span → Span)

@[simp] theorem Name.respelled_moving (isLocal : Bool) (name : Name) :
    name.respelled (.moving move) isLocal = name.moved move := by
  cases isLocal <;> rfl

@[simp] theorem Reference.respelled_moving (reference : Reference) :
    reference.respelled (.moving move) = reference.moved move :=
  congrArg (Reference.mk · reference.address) (reference.name.respelled_moving move _)

@[simp] theorem Spelling.place_moving : (Spelling.moving move).place = move := rfl

mutual

/-- Where names are kept, a respelled tree is moved. -/
theorem Expr.respelled_moving : (expr : Expr) → expr.respelled (.moving move) = expr.moved move
  | .literal _ _ => rfl
  | .grouping inner _ => by simp [Expr.respelled, Expr.moved, inner.respelled_moving]
  | .variable reference => by simp [Expr.respelled, Expr.moved]
  | .assign _ value _ => by simp [Expr.respelled, Expr.moved, value.respelled_moving]
  | .unary _ operand _ => by simp [Expr.respelled, Expr.moved, operand.respelled_moving]
  | .binary _ left right _ => by
      simp [Expr.respelled, Expr.moved, left.respelled_moving, right.respelled_moving]
  | .logical _ left right _ => by
      simp [Expr.respelled, Expr.moved, left.respelled_moving, right.respelled_moving]
  | .call callee arguments _ => by
      simp [Expr.respelled, Expr.moved, callee.respelled_moving, respelledExprs_moving arguments]
  | .get object _ => by simp [Expr.respelled, Expr.moved, object.respelled_moving]
  | .set object _ value _ => by
      simp [Expr.respelled, Expr.moved, object.respelled_moving, value.respelled_moving]
  | .this _ _ => rfl
  | .super _ _ _ => rfl
  | .lambda function => by simp [Expr.respelled, Expr.moved, respelledFunction_moving function]

theorem respelledExprs_moving : (exprs : List Expr) →
    respelledExprs (.moving move) exprs = movedExprs move exprs
  | [] => rfl
  | expr :: rest => by
      simp [respelledExprs, movedExprs, expr.respelled_moving, respelledExprs_moving rest]

theorem respelledOptionalExpr_moving : (expr : Option Expr) →
    respelledOptionalExpr (.moving move) expr = movedOptionalExpr move expr
  | none => rfl
  | some expr => by simp [respelledOptionalExpr, movedOptionalExpr, expr.respelled_moving]

/-- Where names are kept, a respelled tree is moved. -/
theorem Stmt.respelled_moving (inside : Bool) : (stmt : Stmt) →
    stmt.respelled (.moving move) inside = stmt.moved move
  | .expression value _ => by simp [Stmt.respelled, Stmt.moved, value.respelled_moving]
  | .print value _ => by simp [Stmt.respelled, Stmt.moved, value.respelled_moving]
  | .var _ initializer _ => by
      simp [Stmt.respelled, Stmt.moved, respelledOptionalExpr_moving initializer]
  | .block statements _ => by
      simp [Stmt.respelled, Stmt.moved, respelledStmts_moving true statements]
  | .conditional condition thenBranch elseBranch _ => by
      simp [Stmt.respelled, Stmt.moved, condition.respelled_moving,
        thenBranch.respelled_moving inside, respelledOptionalStmt_moving inside elseBranch]
  | .loop condition body increment _ => by
      simp [Stmt.respelled, Stmt.moved, condition.respelled_moving, body.respelled_moving inside,
        respelledOptionalExpr_moving increment]
  | .function declaration _ => by
      simp [Stmt.respelled, Stmt.moved, respelledFunction_moving declaration]
  | .return value _ => by simp [Stmt.respelled, Stmt.moved, respelledOptionalExpr_moving value]
  | .class _ superclass methods _ => by
      cases superclass <;>
        simp [Stmt.respelled, Stmt.moved, respelledFunctions_moving methods]
  | .break _ => rfl
  | .continue _ => rfl

theorem respelledOptionalStmt_moving (inside : Bool) : (stmt : Option Stmt) →
    respelledOptionalStmt (.moving move) inside stmt = movedOptionalStmt move stmt
  | none => rfl
  | some stmt => by simp [respelledOptionalStmt, movedOptionalStmt, stmt.respelled_moving inside]

theorem respelledStmts_moving (inside : Bool) : (stmts : List Stmt) →
    respelledStmts (.moving move) inside stmts = movedStmts move stmts
  | [] => rfl
  | stmt :: rest => by
      simp [respelledStmts, movedStmts, stmt.respelled_moving inside,
        respelledStmts_moving inside rest]

theorem respelledFunction_moving : (function : FunctionDeclaration) →
    respelledFunction (.moving move) function = movedFunction move function
  | ⟨_, parameters, body, _⟩ => by
      have names : parameters.map (Name.respelled (.moving move) true) =
          parameters.map (Name.moved move) :=
        List.map_congr_left fun name _ => name.respelled_moving move true
      simp [respelledFunction, movedFunction, respelledStmts_moving true body, names]

theorem respelledFunctions_moving : (functions : List FunctionDeclaration) →
    respelledFunctions (.moving move) functions = movedFunctions move functions
  | [] => rfl
  | function :: rest => by
      simp [respelledFunctions, movedFunctions, respelledFunction_moving function,
        respelledFunctions_moving rest]

end

variable (first second : Span → Span)

theorem Spelling.after_moving :
    (Spelling.moving second).after (.moving first) = .moving (second ∘ first) := rfl

theorem movedStmts_movedStmts (stmts : List Stmt) :
    movedStmts second (movedStmts first stmts) = movedStmts (second ∘ first) stmts := by
  have twice := respelledStmts_respelledStmts (.moving first) (.moving second) true stmts
  rwa [Spelling.after_moving, respelledStmts_moving, respelledStmts_moving,
    respelledStmts_moving] at twice

theorem movedFunction_movedFunction (function : FunctionDeclaration) :
    movedFunction second (movedFunction first function) =
      movedFunction (second ∘ first) function := by
  have twice := respelledFunction_respelledFunction (.moving first) (.moving second) function
  rwa [Spelling.after_moving, respelledFunction_moving, respelledFunction_moving,
    respelledFunction_moving] at twice

/-- To move twice is to move once. -/
theorem Program.moved_moved (program : Program) :
    (program.moved first).moved second = program.moved (second ∘ first) :=
  congrArg Program.mk (movedStmts_movedStmts first second program.statements)

end Moving

end Lox
