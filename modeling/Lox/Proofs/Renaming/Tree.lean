import Lox.Proofs.Binding.Unbound
import Lox.Proofs.Spelling.Tree

/-!
Contract: a local variable under another name.

A renaming takes one parameter or local variable, known by the place of its declaration, and gives
it a fresh name. It works on a tree whose uses have their addresses: the name is replaced in the
declaration and in the uses whose address leads there. Marks keep track of this on the way down.
They say of each declaration in view whether it is the one.

Such a tree was read before it was bound. Cleared of its addresses, the renamed tree is what is
read when the variable has the fresh name.

Owns: marks, renamed trees, cleared trees, the names of variables in a tree, and that a renamed
tree is the tree when names of local variables are left out. Does not own: binding.
-/

set_option autoImplicit false

namespace Lox

/-- The declaration of a local variable, and its other name, which is spelled like no reserved
word. -/
structure Renaming where
  target : Name
  fresh : String
  plain : Plain fresh

/-- The text, or the fresh name in its place. -/
def Renaming.word (naming : Renaming) (renamed : Bool) (text : String) : String :=
  if renamed then naming.fresh else text

/-- Whether this declaration is the one. -/
def Renaming.hits (naming : Renaming) (name : Name) : Bool := name == naming.target

theorem Renaming.text_of_hits (naming : Renaming) {name : Name} (hit : naming.hits name = true) :
    name.text = naming.target.text :=
  congrArg Name.text (beq_iff_eq.mp hit)

/-! ## Marks -/

/-- Which declarations in view are renamed, scope by scope as their names are. -/
abbrev Marks := List (List Bool)

namespace Marks

/-- Whether the address leads to a renamed declaration. -/
def hit : Marks → Address → Bool
  | [], _ => false
  | scope :: _, ⟨0, slot⟩ => scope.getD slot false
  | _ :: outer, ⟨depth + 1, slot⟩ => hit outer ⟨depth, slot⟩

/-- Another declaration in the innermost scope; at top level there is none. -/
def declare (renamed : Bool) : Marks → Marks
  | [] => []
  | scope :: outer => (scope ++ [renamed]) :: outer

@[simp] theorem isEmpty_declare (renamed : Bool) (marks : Marks) :
    (marks.declare renamed).isEmpty = marks.isEmpty := by
  cases marks <;> rfl

@[simp] theorem tail_declare (renamed : Bool) (marks : Marks) :
    (marks.declare renamed).tail = marks.tail := by
  cases marks <;> rfl

end Marks

/-! ## Renamed trees -/

/-- The name, or the fresh one in its place. -/
def Name.renamed (naming : Renaming) (renamed : Bool) (name : Name) : Name :=
  ⟨naming.word renamed name.text, name.span⟩

/-- The use of a variable, of the fresh name if it leads to the renamed declaration. -/
def Reference.renamed (naming : Renaming) (marks : Marks) (reference : Reference) : Reference :=
  ⟨reference.name.renamed naming (reference.address.any marks.hit), reference.address⟩

/-- A parameter, renamed if it is the one. -/
def Name.renamedParameter (naming : Renaming) (parameter : Name) : Name :=
  parameter.renamed naming (naming.hits parameter)

/-- The marks behind a statement. Functions and classes are never renamed. -/
def Stmt.marksAfter (naming : Renaming) (marks : Marks) : Stmt → Marks
  | .var name _ _ => marks.declare (naming.hits name)
  | .function _ _ => marks.declare false
  | .class _ _ _ _ => marks.declare false
  | _ => marks

/-- The marks behind statements. -/
def marksAfterStmts (naming : Renaming) (marks : Marks) (stmts : List Stmt) : Marks :=
  stmts.foldl (fun marks stmt => stmt.marksAfter naming marks) marks

/-- The marks in the methods of a class. -/
def Marks.inMethods (marks : Marks) (superclass : Option Reference) : Marks :=
  [false] :: if superclass.isSome then [false] :: marks else marks

mutual

/-- The expression under the renaming. -/
def Expr.renamed (naming : Renaming) (marks : Marks) : Expr → Expr
  | .literal value span => .literal value span
  | .grouping inner span => .grouping (inner.renamed naming marks) span
  | .variable reference => .variable (reference.renamed naming marks)
  | .assign target value span =>
      .assign (target.renamed naming marks) (value.renamed naming marks) span
  | .unary operator operand span => .unary operator (operand.renamed naming marks) span
  | .binary operator left right span =>
      .binary operator (left.renamed naming marks) (right.renamed naming marks) span
  | .logical operator left right span =>
      .logical operator (left.renamed naming marks) (right.renamed naming marks) span
  | .call callee arguments span =>
      .call (callee.renamed naming marks) (renamedExprs naming marks arguments) span
  | .get object name => .get (object.renamed naming marks) name
  | .set object name value span =>
      .set (object.renamed naming marks) name (value.renamed naming marks) span
  | .this address span => .this address span
  | .super address method span => .super address method span
  | .lambda function => .lambda (renamedFunction naming marks function)

/-- The expressions under the renaming. -/
def renamedExprs (naming : Renaming) (marks : Marks) : List Expr → List Expr
  | [] => []
  | expr :: rest => expr.renamed naming marks :: renamedExprs naming marks rest

/-- The expression, if there is one, under the renaming. -/
def renamedOptionalExpr (naming : Renaming) (marks : Marks) : Option Expr → Option Expr
  | none => none
  | some expr => some (expr.renamed naming marks)

/-- The statement under the renaming. What a variable begins with is already in its scope. -/
def Stmt.renamed (naming : Renaming) (marks : Marks) : Stmt → Stmt
  | .expression value span => .expression (value.renamed naming marks) span
  | .print value span => .print (value.renamed naming marks) span
  | .var name initializer span =>
      .var (name.renamed naming (!marks.isEmpty && naming.hits name))
        (renamedOptionalExpr naming (marks.declare (naming.hits name)) initializer) span
  | .block statements span => .block (renamedStmts naming ([] :: marks) statements) span
  | .conditional condition thenBranch elseBranch span =>
      .conditional (condition.renamed naming marks) (thenBranch.renamed naming marks)
        (renamedOptionalStmt naming marks elseBranch) span
  | .loop condition body increment span =>
      .loop (condition.renamed naming marks) (body.renamed naming marks)
        (renamedOptionalExpr naming marks increment) span
  | .function declaration span =>
      .function (renamedFunction naming (marks.declare false) declaration) span
  | .return value span => .return (renamedOptionalExpr naming marks value) span
  | .class name superclass methods span =>
      .class name (superclass.map (Reference.renamed naming (marks.declare false)))
        (renamedFunctions naming ((marks.declare false).inMethods superclass) methods) span
  | .break span => .break span
  | .continue span => .continue span

/-- The statement, if there is one, under the renaming. -/
def renamedOptionalStmt (naming : Renaming) (marks : Marks) : Option Stmt → Option Stmt
  | none => none
  | some stmt => some (stmt.renamed naming marks)

/-- The statements under the renaming. -/
def renamedStmts (naming : Renaming) (marks : Marks) : List Stmt → List Stmt
  | [] => []
  | stmt :: rest =>
      stmt.renamed naming marks :: renamedStmts naming (stmt.marksAfter naming marks) rest

/-- The function under the renaming. -/
def renamedFunction (naming : Renaming) (marks : Marks) :
    FunctionDeclaration → FunctionDeclaration
  | ⟨name, parameters, body, isGetter⟩ =>
      ⟨name, parameters.map (Name.renamedParameter naming),
        renamedStmts naming (parameters.map naming.hits :: marks) body, isGetter⟩

/-- The functions under the renaming. -/
def renamedFunctions (naming : Renaming) (marks : Marks) :
    List FunctionDeclaration → List FunctionDeclaration
  | [] => []
  | function :: rest =>
      renamedFunction naming marks function :: renamedFunctions naming marks rest

end

/-- The program under the renaming. -/
def Program.renamed (naming : Renaming) (program : Program) : Program :=
  ⟨renamedStmts naming [] program.statements⟩

section Parts

variable (naming : Renaming) (marks : Marks)

@[simp] theorem Name.renamed_false (name : Name) : name.renamed naming false = name := rfl

theorem Stmt.isEmpty_marksAfter (stmt : Stmt) :
    (stmt.marksAfter naming marks).isEmpty = marks.isEmpty := by
  cases stmt <;> simp [Stmt.marksAfter]

theorem Stmt.tail_marksAfter (stmt : Stmt) :
    (stmt.marksAfter naming marks).tail = marks.tail := by
  cases stmt <;> simp [Stmt.marksAfter]

theorem Stmt.marksAfter_of_declared?_eq_none {stmt : Stmt} (undeclared : stmt.declared? = none) :
    stmt.marksAfter naming marks = marks := by
  cases stmt with
  | var => cases undeclared
  | function => cases undeclared
  | «class» => cases undeclared
  | _ => rfl

theorem tail_marksAfterStmts (stmts : List Stmt) :
    (marksAfterStmts naming marks stmts).tail = marks.tail := by
  induction stmts generalizing marks with
  | nil => rfl
  | cons stmt rest inductionHypothesis =>
      exact (inductionHypothesis (stmt.marksAfter naming marks)).trans
        (stmt.tail_marksAfter naming marks)

end Parts

/-! ## The names of variables -/

mutual

/-- The names of the variables that the expression uses or declares. -/
def Expr.variableNames : Expr → List String
  | .literal _ _ => []
  | .grouping inner _ => inner.variableNames
  | .variable reference => [reference.name.text]
  | .assign target value _ => target.name.text :: value.variableNames
  | .unary _ operand _ => operand.variableNames
  | .binary _ left right _ => left.variableNames ++ right.variableNames
  | .logical _ left right _ => left.variableNames ++ right.variableNames
  | .call callee arguments _ => callee.variableNames ++ variableNamesOfExprs arguments
  | .get object _ => object.variableNames
  | .set object _ value _ => object.variableNames ++ value.variableNames
  | .this _ _ => []
  | .super _ _ _ => []
  | .lambda function => variableNamesOfFunction function

/-- The names of the variables in the expressions. -/
def variableNamesOfExprs : List Expr → List String
  | [] => []
  | expr :: rest => expr.variableNames ++ variableNamesOfExprs rest

/-- The names of the variables in the expression, if there is one. -/
def variableNamesOfOptionalExpr : Option Expr → List String
  | none => []
  | some expr => expr.variableNames

/-- The names of the variables that the statement uses or declares; functions and classes are
kept in variables. -/
def Stmt.variableNames : Stmt → List String
  | .expression value _ => value.variableNames
  | .print value _ => value.variableNames
  | .var name initializer _ => name.text :: variableNamesOfOptionalExpr initializer
  | .block statements _ => variableNamesOfStmts statements
  | .conditional condition thenBranch elseBranch _ =>
      condition.variableNames ++ thenBranch.variableNames ++ variableNamesOfOptionalStmt elseBranch
  | .loop condition body increment _ =>
      condition.variableNames ++ body.variableNames ++ variableNamesOfOptionalExpr increment
  | .function declaration _ => declaration.name.text :: variableNamesOfFunction declaration
  | .return value _ => variableNamesOfOptionalExpr value
  | .class name superclass methods _ =>
      name.text ::
        (superclass.toList.map fun reference => reference.name.text) ++
          variableNamesOfFunctions methods
  | .break _ => []
  | .continue _ => []

/-- The names of the variables in the statement, if there is one. -/
def variableNamesOfOptionalStmt : Option Stmt → List String
  | none => []
  | some stmt => stmt.variableNames

/-- The names of the variables in the statements. -/
def variableNamesOfStmts : List Stmt → List String
  | [] => []
  | stmt :: rest => stmt.variableNames ++ variableNamesOfStmts rest

/-- The names of the parameters of the function, and of the variables in its body. -/
def variableNamesOfFunction : FunctionDeclaration → List String
  | ⟨_, parameters, body, _⟩ => parameters.map Name.text ++ variableNamesOfStmts body

/-- The names of the variables in the functions. -/
def variableNamesOfFunctions : List FunctionDeclaration → List String
  | [] => []
  | function :: rest => variableNamesOfFunction function ++ variableNamesOfFunctions rest

end

/-- The names of the variables in the program. -/
def Program.variableNames (program : Program) : List String :=
  variableNamesOfStmts program.statements

/-! ## Without the names of local variables -/

/-- Leaves out the names of local variables. -/
def Spelling.nameless : Spelling := ⟨id, fun _ => ""⟩

section Nameless

variable (naming : Renaming)

theorem Name.respelled_renamed (renamed : Bool) (name : Name) :
    (name.renamed naming renamed).respelled .nameless true = name.respelled .nameless true := by
  cases renamed <;> rfl

theorem Reference.respelled_renamed (marks : Marks) (reference : Reference) :
    (reference.renamed naming marks).respelled .nameless = reference.respelled .nameless := by
  obtain ⟨name, _ | address⟩ := reference
  · rfl
  · exact congrArg (Reference.mk · (some address)) (name.respelled_renamed naming _)

mutual

/-- A renaming changes the names of local variables only. -/
theorem Expr.respelled_renamed (marks : Marks) : (expr : Expr) →
    (expr.renamed naming marks).respelled .nameless = expr.respelled .nameless
  | .literal _ _ => rfl
  | .grouping inner _ => by simp [Expr.renamed, Expr.respelled, inner.respelled_renamed]
  | .variable reference => by
      simp [Expr.renamed, Expr.respelled, reference.respelled_renamed]
  | .assign target value _ => by
      simp [Expr.renamed, Expr.respelled, target.respelled_renamed, value.respelled_renamed]
  | .unary _ operand _ => by simp [Expr.renamed, Expr.respelled, operand.respelled_renamed]
  | .binary _ left right _ => by
      simp [Expr.renamed, Expr.respelled, left.respelled_renamed, right.respelled_renamed]
  | .logical _ left right _ => by
      simp [Expr.renamed, Expr.respelled, left.respelled_renamed, right.respelled_renamed]
  | .call callee arguments _ => by
      simp [Expr.renamed, Expr.respelled, callee.respelled_renamed,
        respelledExprs_renamedExprs marks arguments]
  | .get object _ => by simp [Expr.renamed, Expr.respelled, object.respelled_renamed]
  | .set object _ value _ => by
      simp [Expr.renamed, Expr.respelled, object.respelled_renamed, value.respelled_renamed]
  | .this _ _ => rfl
  | .super _ _ _ => rfl
  | .lambda function => by
      simp [Expr.renamed, Expr.respelled, respelledFunction_renamedFunction marks function]

theorem respelledExprs_renamedExprs (marks : Marks) : (exprs : List Expr) →
    respelledExprs .nameless (renamedExprs naming marks exprs) = respelledExprs .nameless exprs
  | [] => rfl
  | expr :: rest => by
      simp [renamedExprs, respelledExprs, expr.respelled_renamed marks,
        respelledExprs_renamedExprs marks rest]

theorem respelledOptionalExpr_renamedOptionalExpr (marks : Marks) : (expr : Option Expr) →
    respelledOptionalExpr .nameless (renamedOptionalExpr naming marks expr) =
      respelledOptionalExpr .nameless expr
  | none => rfl
  | some expr => by simp [renamedOptionalExpr, respelledOptionalExpr, expr.respelled_renamed marks]

/-- A renaming changes the names of local variables only. -/
theorem Stmt.respelled_renamed (marks : Marks) : (stmt : Stmt) →
    (stmt.renamed naming marks).respelled .nameless (!marks.isEmpty) =
      stmt.respelled .nameless !marks.isEmpty
  | .expression value _ => by
      simp [Stmt.renamed, Stmt.respelled, value.respelled_renamed marks]
  | .print value _ => by
      simp [Stmt.renamed, Stmt.respelled, value.respelled_renamed marks]
  | .var name initializer _ => by
      have names : (name.renamed naming (!marks.isEmpty && naming.hits name)).respelled
          .nameless (!marks.isEmpty) = name.respelled .nameless !marks.isEmpty := by
        cases marks.isEmpty
        · exact name.respelled_renamed naming _
        · rfl
      simp [Stmt.renamed, Stmt.respelled, names,
        respelledOptionalExpr_renamedOptionalExpr _ initializer]
  | .block statements _ => by
      have body := respelledStmts_renamedStmts ([] :: marks) statements
      simp only [List.isEmpty_cons, Bool.not_false] at body
      simp [Stmt.renamed, Stmt.respelled, body]
  | .conditional condition thenBranch elseBranch _ => by
      simp [Stmt.renamed, Stmt.respelled, condition.respelled_renamed marks,
        thenBranch.respelled_renamed marks,
        respelledOptionalStmt_renamedOptionalStmt marks elseBranch]
  | .loop condition body increment _ => by
      simp [Stmt.renamed, Stmt.respelled, condition.respelled_renamed marks,
        body.respelled_renamed marks, respelledOptionalExpr_renamedOptionalExpr marks increment]
  | .function declaration _ => by
      simp [Stmt.renamed, Stmt.respelled, respelledFunction_renamedFunction _ declaration]
  | .return value _ => by
      simp [Stmt.renamed, Stmt.respelled, respelledOptionalExpr_renamedOptionalExpr marks value]
  | .class _ superclass methods _ => by
      cases superclass <;>
        simp [Stmt.renamed, Stmt.respelled, Reference.respelled_renamed,
          respelledFunctions_renamedFunctions _ methods]
  | .break _ => rfl
  | .continue _ => rfl

theorem respelledOptionalStmt_renamedOptionalStmt (marks : Marks) : (stmt : Option Stmt) →
    respelledOptionalStmt .nameless (!marks.isEmpty) (renamedOptionalStmt naming marks stmt) =
      respelledOptionalStmt .nameless (!marks.isEmpty) stmt
  | none => rfl
  | some stmt => by simp [renamedOptionalStmt, respelledOptionalStmt, stmt.respelled_renamed marks]

theorem respelledStmts_renamedStmts (marks : Marks) : (stmts : List Stmt) →
    respelledStmts .nameless (!marks.isEmpty) (renamedStmts naming marks stmts) =
      respelledStmts .nameless (!marks.isEmpty) stmts
  | [] => rfl
  | stmt :: rest => by
      have others := respelledStmts_renamedStmts (stmt.marksAfter naming marks) rest
      rw [stmt.isEmpty_marksAfter] at others
      simp [renamedStmts, respelledStmts, stmt.respelled_renamed marks, others]

theorem respelledFunction_renamedFunction (marks : Marks) : (function : FunctionDeclaration) →
    respelledFunction .nameless (renamedFunction naming marks function) =
      respelledFunction .nameless function
  | ⟨_, parameters, body, _⟩ => by
      have names : ∀ parameter : Name, (parameter.renamedParameter naming).respelled
          .nameless true = parameter.respelled .nameless true :=
        fun parameter => parameter.respelled_renamed naming _
      have inside := respelledStmts_renamedStmts (parameters.map naming.hits :: marks) body
      simp only [List.isEmpty_cons, Bool.not_false] at inside
      simp [renamedFunction, respelledFunction, names, inside]

theorem respelledFunctions_renamedFunctions (marks : Marks) :
    (functions : List FunctionDeclaration) →
    respelledFunctions .nameless (renamedFunctions naming marks functions) =
      respelledFunctions .nameless functions
  | [] => rfl
  | function :: rest => by
      simp [renamedFunctions, respelledFunctions, respelledFunction_renamedFunction marks function,
        respelledFunctions_renamedFunctions marks rest]

end

end Nameless

end Lox
