import Lox.Syntax.Printed

/-!
Contract: the outline of a tree, its nodes in reading order.

The outline lists one entry for each node: what it is, its name where it has
one, where a diagnostic would point, and the address of a bound use. A node
comes before its parts, and parts come in the order in which they are written,
but for the increment of a `for`, which comes after the body.

Owns: the order of nodes and the text of entries.
-/

namespace Lox

/-- One node of an outline. -/
structure Entry where
  kind : String
  name : Option String
  span : Span
  address : Option Address
deriving DecidableEq, Repr

/-- The entry of a node that binds nothing and uses nothing. -/
def Entry.plain (kind : String) (span : Span) : Entry := ⟨kind, none, span, none⟩

/-- The entry of a node with a name. -/
def Entry.named (kind name : String) (span : Span) : Entry := ⟨kind, some name, span, none⟩

/-- One line of an outline. -/
def Entry.text (entry : Entry) : String :=
  let name := match entry.name with
    | none => ""
    | some name => " " ++ name
  let address := match entry.address with
    | none => ""
    | some address => " @" ++ toString address.depth ++ "," ++ toString address.slot
  entry.kind ++ name ++ " " ++ toString entry.span.line ++ ":" ++ toString entry.span.column ++
    ":" ++ toString entry.span.length ++ address

/-- The entry for the use of a variable. -/
def Reference.entry (reference : Reference) (kind : String) (span : Span) : Entry :=
  ⟨kind, some reference.name.text, span, reference.address⟩

/-- The entries for parameters. -/
def parameterEntries (parameters : List Name) : List Entry :=
  parameters.map fun parameter => .named "Param" parameter.text parameter.span

/-- The entry for the head of a function, method or getter. -/
def Declaration.entry {Statement : Type} (declaration : Declaration Statement) : Entry :=
  .named (if declaration.isGetter then "Getter" else "Fun") declaration.name.text
    declaration.name.span

/-- The entry of an optional superclass. -/
def superclassEntries : Option Reference → List Entry
  | none => []
  | some superclass => [superclass.entry "Variable" superclass.name.span]

mutual

/-- The entries of an expression. -/
def Expr.outline : Expr → List Entry
  | .literal value span => [.named "Literal" value.printed span]
  | .grouping inner span => .plain "Grouping" span :: inner.outline
  | .variable reference => [reference.entry "Variable" reference.name.span]
  | .assign target value span => target.entry "Assign" span :: value.outline
  | .unary operator operand span => .named "Unary" operator.text span :: operand.outline
  | .binary operator left right span =>
      .named "Binary" operator.text span :: (left.outline ++ right.outline)
  | .logical operator left right span =>
      .named "Logical" operator.text span :: (left.outline ++ right.outline)
  | .call callee arguments span =>
      .plain "Call" span :: (callee.outline ++ outlineOfExprs arguments)
  | .get object name => .named "Get" name.text name.span :: object.outline
  | .set object name value span =>
      .named "Set" name.text span :: (object.outline ++ value.outline)
  | .this address span => [⟨"This", none, span, address⟩]
  | .super address method span => [⟨"Super", some method.text, span, address⟩]
  | .lambda function => .plain "Lambda" function.name.span :: outlineOfDeclaration function

/-- The entries of expressions, in order. -/
def outlineOfExprs : List Expr → List Entry
  | [] => []
  | expr :: rest => expr.outline ++ outlineOfExprs rest

/-- The entries of an optional expression. -/
def outlineOfOptionalExpr : Option Expr → List Entry
  | none => []
  | some expr => expr.outline

/-- The entries of a statement. -/
def Stmt.outline : Stmt → List Entry
  | .expression value span => .plain "Expression" span :: value.outline
  | .print value span => .plain "Print" span :: value.outline
  | .var name initializer span =>
      .plain "Var" span :: .named "Name" name.text name.span ::
        outlineOfOptionalExpr initializer
  | .block statements span => .plain "Block" span :: outlineOfStmts statements
  | .conditional condition thenBranch elseBranch span =>
      .plain "If" span ::
        (condition.outline ++ thenBranch.outline ++ outlineOfOptionalStmt elseBranch)
  | .loop condition body increment span =>
      .plain "While" span ::
        (condition.outline ++ body.outline ++ outlineOfOptionalExpr increment)
  | .function declaration span => .plain "Function" span :: outlineOfDeclaration declaration
  | .return value span => .plain "Return" span :: outlineOfOptionalExpr value
  | .class name superclass methods span =>
      .plain "Class" span :: .named "Name" name.text name.span ::
        (superclassEntries superclass ++ outlineOfDeclarations methods)
  | .break span => [.plain "Break" span]
  | .continue span => [.plain "Continue" span]

/-- The entries of an optional statement. -/
def outlineOfOptionalStmt : Option Stmt → List Entry
  | none => []
  | some stmt => stmt.outline

/-- The entries of statements, in order. -/
def outlineOfStmts : List Stmt → List Entry
  | [] => []
  | stmt :: rest => stmt.outline ++ outlineOfStmts rest

/-- The entries of a function, method or getter. -/
def outlineOfDeclaration : FunctionDeclaration → List Entry
  | ⟨name, parameters, body, isGetter⟩ =>
      Declaration.entry (⟨name, parameters, body, isGetter⟩ : FunctionDeclaration) ::
        (parameterEntries parameters ++ outlineOfStmts body)

/-- The entries of methods, in order. -/
def outlineOfDeclarations : List FunctionDeclaration → List Entry
  | [] => []
  | declaration :: rest => outlineOfDeclaration declaration ++ outlineOfDeclarations rest

end

/-- The entries of a program. -/
def Program.outline (program : Program) : List Entry :=
  outlineOfStmts program.statements

end Lox
