import Lox.Binding.Resolver

/-!
Contract: the places of a program, and what the rules about names, jumps and classes say
of a place.

A place stands in regions: in blocks, functions, methods of classes, bodies of loops and
initializers of variables. `Program.occurrences` lists whatever a rule may be about, with
the regions around it; that is read off the tree alone, and nothing is carried from one
place to another. `Occurrence.Breaks` states each rule once, of the regions around a
place, and `Regions.Addresses` says which declaration a name means there.

Owns: regions, occurrences, the rules and the lexical address of a name. Does not own:
the pass over names, which carries scopes, kinds and counters along.
-/

set_option autoImplicit false

namespace Lox

open Binding

/-! ## Regions -/

/-- A part of a program that places stand in. Where names are listed, they are those that
the part declares in front of the place, in the order of the declarations. -/
inductive Region where
  /-- A block. -/
  | block (declared : List String)
  /-- A function, its parameters and its body together. -/
  | function (isInitializer : Bool) (declared : List String)
  /-- The methods of a class, which has a superclass or not. -/
  | methods (inherits : Bool)
  /-- The body of a loop. -/
  | loop
  /-- The initializer of a variable, with the names that are declared earlier in the same
  scope. -/
  | initializer (name : String) (earlier : List String)
  /-- The whole program, with the names that are known in front of it. -/
  | program (declared : List String)
deriving DecidableEq, Repr

/-- The regions around a place, the innermost first. -/
abbrev Regions := List Region

namespace Region

/-- The names that a local scope declares, if the region is one. -/
def localNames? : Region → Option (List String)
  | .block names => some names
  | .function _ names => some names
  | _ => none

/-- The region is a local scope that declares the name. -/
def Declares (region : Region) (name : String) : Prop :=
  ∃ names, region.localNames? = some names ∧ name ∈ names

/-- How many scopes the region counts for. Around methods there is one for `this`, and
one for `super` if there is a superclass. -/
def scopes : Region → Nat
  | .block _ => 1
  | .function _ _ => 1
  | .methods inherits => if inherits then 2 else 1
  | .loop => 0
  | .initializer _ _ => 0
  | .program _ => 0

end Region

namespace Regions

/-- The names that the innermost scope declares. -/
def declared : Regions → List String
  | [] => []
  | .block names :: _ => names
  | .function _ names :: _ => names
  | .program names :: _ => names
  | .methods _ :: outer => declared outer
  | .loop :: outer => declared outer
  | .initializer _ _ :: outer => declared outer

/-- The innermost scope is a block or a function. -/
def isLocal : Regions → Bool
  | [] => false
  | .block _ :: _ => true
  | .function _ _ :: _ => true
  | .program _ :: _ => false
  | .methods _ :: outer => isLocal outer
  | .loop :: outer => isLocal outer
  | .initializer _ _ :: outer => isLocal outer

/-- The regions behind a declaration in the innermost scope. -/
def declare (name : String) : Regions → Regions
  | [] => []
  | .block names :: outer => .block (names ++ [name]) :: outer
  | .function isInitializer names :: outer => .function isInitializer (names ++ [name]) :: outer
  | .program names :: outer => .program (names ++ [name]) :: outer
  | .methods inherits :: outer => .methods inherits :: declare name outer
  | .loop :: outer => .loop :: declare name outer
  | .initializer own earlier :: outer => .initializer own earlier :: declare name outer

/-- The regions behind declarations in the innermost scope. -/
def declareAll (names : List String) (around : Regions) : Regions :=
  names.foldl (fun regions name => regions.declare name) around

/-- The variable whose initializer the place stands in directly, if nothing has declared
it earlier in the same scope. -/
def initializing? : Regions → Option String
  | .initializer name earlier :: _ => if name ∈ earlier then none else some name
  | _ => none

/-- The place stands in the body of a loop of the innermost function. -/
def inLoop : Regions → Bool
  | [] => false
  | .loop :: _ => true
  | .function _ _ :: _ => false
  | .block _ :: outer => inLoop outer
  | .methods _ :: outer => inLoop outer
  | .initializer _ _ :: outer => inLoop outer
  | .program _ :: _ => false

/-- The innermost function, if there is one: whether it is an initializer. -/
def function? : Regions → Option Bool
  | [] => none
  | .function isInitializer _ :: _ => some isInitializer
  | .block _ :: outer => function? outer
  | .methods _ :: outer => function? outer
  | .loop :: outer => function? outer
  | .initializer _ _ :: outer => function? outer
  | .program _ :: _ => none

/-- The innermost class, if there is one: whether it has a superclass. -/
def class? : Regions → Option Bool
  | [] => none
  | .methods inherits :: _ => some inherits
  | .block _ :: outer => class? outer
  | .function _ _ :: outer => class? outer
  | .loop :: outer => class? outer
  | .initializer _ _ :: outer => class? outer
  | .program _ :: _ => none

/-- How many scopes the regions count for. -/
def scopes : Regions → Nat
  | [] => 0
  | region :: outer => region.scopes + scopes outer

/-- By the rules of scope the name means the local variable at the address. It is declared
in one of the regions and in none inside that. The depth counts the scopes inside it, and
the slot the different names declared in it before the name. -/
def Addresses (around : Regions) (name : String) (address : Address) : Prop :=
  ∃ (inside : Regions) (scope : Region) (outside : Regions) (names : List String),
    around = inside ++ scope :: outside ∧ (∀ region ∈ inside, ¬ region.Declares name) ∧
      scope.localNames? = some names ∧ name ∈ names ∧
      address.depth = inside.scopes ∧
      address.slot = (names.takeWhile (· ≠ name)).eraseDups.length

end Regions

/-! ## Occurrences -/

/-- What a rule may be about. -/
inductive Node where
  /-- A variable that is read. -/
  | read (reference : Reference)
  /-- A variable that is assigned. -/
  | assign (reference : Reference)
  /-- The superclass of a class. -/
  | superclass (reference : Reference) (className : String)
  | this (address : Option Address) (span : Span)
  | super (address : Option Address) (span : Span)
  /-- The name of a variable, function or class, or a parameter. -/
  | declaration (name : Name)
  | return (hasValue : Bool) (span : Span)
  | break (span : Span)
  | continue (span : Span)
deriving DecidableEq, Repr

namespace Node

/-- The use of a variable, if the node is one. -/
def reference? : Node → Option Reference
  | .read reference => some reference
  | .assign reference => some reference
  | .superclass reference _ => some reference
  | _ => none

/-- Where a diagnostic about the node points. -/
def span : Node → Span
  | .read reference => reference.name.span
  | .assign reference => reference.name.span
  | .superclass reference _ => reference.name.span
  | .this _ span => span
  | .super _ span => span
  | .declaration name => name.span
  | .return _ span => span
  | .break span => span
  | .continue span => span

/-- The word that a diagnostic about the node names. -/
def lexeme : Node → String
  | .read reference => reference.name.text
  | .assign reference => reference.name.text
  | .superclass reference _ => reference.name.text
  | .this _ _ => "this"
  | .super _ _ => "super"
  | .declaration name => name.text
  | .return _ _ => "return"
  | .break _ => "break"
  | .continue _ => "continue"

end Node

/-- A node and the regions around it. -/
structure Occurrence where
  node : Node
  around : Regions
deriving DecidableEq, Repr

mutual

/-- The names that the statement declares in the scope that it stands in. -/
def Stmt.declares : Stmt → List String
  | .var name _ _ => [name.text]
  | .function declaration _ => [declaration.name.text]
  | .class name _ _ _ => [name.text]
  | .conditional _ thenBranch elseBranch _ =>
      thenBranch.declares ++ declaresOfOptionalStmt elseBranch
  | .loop _ body _ _ => body.declares
  | .expression _ _ => []
  | .print _ _ => []
  | .block _ _ => []
  | .return _ _ => []
  | .break _ => []
  | .continue _ => []

/-- The names that the statement, if there is one, declares in its scope. -/
def declaresOfOptionalStmt : Option Stmt → List String
  | none => []
  | some stmt => stmt.declares

end

/-- The names that the statements declare in the scope that they stand in. -/
def declaresOfStmts (stmts : List Stmt) : List String := stmts.flatMap Stmt.declares

/-- The globals that the program declares. -/
def Program.declares (program : Program) : List String := declaresOfStmts program.statements

/-- The superclass of a class, if there is one. -/
def occurrencesOfSuperclass (around : Regions) (className : Name) :
    Option Reference → List Occurrence
  | none => []
  | some reference => [⟨.superclass reference className.text, around⟩]

/-- The parameters of a function, each behind those before it. -/
def occurrencesOfParameters (around : Regions) : List Name → List Occurrence
  | [] => []
  | parameter :: rest =>
      ⟨.declaration parameter, around⟩ ::
        occurrencesOfParameters (around.declare parameter.text) rest

mutual

/-- The occurrences in an expression, in the order of evaluation but for properties, whose
value comes in front of the object. -/
def Expr.occurrences (around : Regions) : Expr → List Occurrence
  | .literal _ _ => []
  | .grouping inner _ => inner.occurrences around
  | .variable reference => [⟨.read reference, around⟩]
  | .assign target value _ => value.occurrences around ++ [⟨.assign target, around⟩]
  | .unary _ operand _ => operand.occurrences around
  | .binary _ left right _ => left.occurrences around ++ right.occurrences around
  | .logical _ left right _ => left.occurrences around ++ right.occurrences around
  | .call callee arguments _ => callee.occurrences around ++ occurrencesOfExprs around arguments
  | .get object _ => object.occurrences around
  | .set object _ value _ => value.occurrences around ++ object.occurrences around
  | .this address span => [⟨.this address span, around⟩]
  | .super address _ span => [⟨.super address span, around⟩]
  | .lambda function => occurrencesOfFunction around false function

/-- The occurrences in expressions. -/
def occurrencesOfExprs (around : Regions) : List Expr → List Occurrence
  | [] => []
  | expr :: rest => expr.occurrences around ++ occurrencesOfExprs around rest

/-- The occurrences in an optional expression. -/
def occurrencesOfOptionalExpr (around : Regions) : Option Expr → List Occurrence
  | none => []
  | some expr => expr.occurrences around

/-- The occurrences in a statement. A variable is declared in front of its initializer, a
function in front of its parameters, and a class in front of its superclass. The condition
and the increment of a loop are no part of its body. -/
def Stmt.occurrences (around : Regions) : Stmt → List Occurrence
  | .expression value _ => value.occurrences around
  | .print value _ => value.occurrences around
  | .var name initializer _ =>
      ⟨.declaration name, around⟩ ::
        occurrencesOfOptionalExpr
          (.initializer name.text around.declared :: around.declare name.text) initializer
  | .block statements _ => occurrencesOfStmts (.block [] :: around) statements
  | .conditional condition thenBranch elseBranch _ =>
      condition.occurrences around ++ (thenBranch.occurrences around ++
        occurrencesOfOptionalStmt (around.declareAll thenBranch.declares) elseBranch)
  | .loop condition body increment _ =>
      condition.occurrences around ++ (body.occurrences (.loop :: around) ++
        occurrencesOfOptionalExpr (around.declareAll body.declares) increment)
  | .function declaration _ =>
      ⟨.declaration declaration.name, around⟩ ::
        occurrencesOfFunction (around.declare declaration.name.text) false declaration
  | .return value span =>
      ⟨.return value.isSome span, around⟩ :: occurrencesOfOptionalExpr around value
  | .class name superclass methods _ =>
      ⟨.declaration name, around⟩ ::
        (occurrencesOfSuperclass (around.declare name.text) name superclass ++
          occurrencesOfMethods (.methods superclass.isSome :: around.declare name.text) methods)
  | .break span => [⟨.break span, around⟩]
  | .continue span => [⟨.continue span, around⟩]

/-- The occurrences in an optional statement. -/
def occurrencesOfOptionalStmt (around : Regions) : Option Stmt → List Occurrence
  | none => []
  | some stmt => stmt.occurrences around

/-- The occurrences in statements, each behind those before it. -/
def occurrencesOfStmts (around : Regions) : List Stmt → List Occurrence
  | [] => []
  | stmt :: rest =>
      stmt.occurrences around ++ occurrencesOfStmts (around.declareAll stmt.declares) rest

/-- The occurrences in a function, which is an initializer or not. -/
def occurrencesOfFunction (around : Regions) (isInitializer : Bool) :
    FunctionDeclaration → List Occurrence
  | ⟨_, parameters, body, _⟩ =>
      occurrencesOfParameters (.function isInitializer [] :: around) parameters ++
        occurrencesOfStmts (.function isInitializer (parameters.map Name.text) :: around) body

/-- The occurrences in methods. -/
def occurrencesOfMethods (around : Regions) : List FunctionDeclaration → List Occurrence
  | [] => []
  | method :: rest =>
      occurrencesOfFunction around method.isInitializer method ++ occurrencesOfMethods around rest

end

/-- The occurrences in a program in front of which these globals are known. -/
def Program.occurrences (known : List String) (program : Program) : List Occurrence :=
  occurrencesOfStmts [.program known] program.statements

/-! ## Rules -/

/-- All rules. -/
def BindingError.Cause.all : List BindingError.Cause :=
  [.ownInitializer, .duplicate, .returnOutsideFunction, .returnFromInitializer,
    .breakOutsideLoop, .continueOutsideLoop, .thisOutsideClass, .superOutsideClass,
    .superWithoutSuperclass, .inheritsFromItself]

theorem BindingError.Cause.mem_all (cause : BindingError.Cause) :
    cause ∈ BindingError.Cause.all := by
  cases cause <;> decide

namespace Occurrence

/-- The rule is broken at the occurrence. -/
def Breaks (occurrence : Occurrence) (cause : BindingError.Cause) : Prop :=
  match cause, occurrence.node with
  | .ownInitializer, .read reference =>
      occurrence.around.initializing? = some reference.name.text
  | .duplicate, .declaration name =>
      occurrence.around.isLocal = true ∧ name.text ∈ occurrence.around.declared
  | .returnOutsideFunction, .return _ _ => occurrence.around.function? = none
  | .returnFromInitializer, .return hasValue _ =>
      hasValue = true ∧ occurrence.around.function? = some true
  | .breakOutsideLoop, .break _ => occurrence.around.inLoop = false
  | .continueOutsideLoop, .continue _ => occurrence.around.inLoop = false
  | .thisOutsideClass, .this _ _ => occurrence.around.class? = none
  | .superOutsideClass, .super _ _ => occurrence.around.class? = none
  | .superWithoutSuperclass, .super _ _ => occurrence.around.class? = some false
  | .inheritsFromItself, .superclass reference className => reference.name.text = className
  | _, _ => False

instance (occurrence : Occurrence) : DecidablePred occurrence.Breaks := fun cause => by
  unfold Breaks
  split <;> infer_instance

/-- What is reported if the rule is broken at the occurrence. -/
def error (occurrence : Occurrence) (cause : BindingError.Cause) : BindingError :=
  ⟨cause, occurrence.node.lexeme, occurrence.node.span⟩

/-- One error for each rule that is broken at the occurrence. -/
def errors (occurrence : Occurrence) : List BindingError :=
  (BindingError.Cause.all.filter fun cause => occurrence.Breaks cause).map occurrence.error

theorem mem_errors_iff {occurrence : Occurrence} {error : BindingError} :
    error ∈ occurrence.errors ↔
      ∃ cause, occurrence.Breaks cause ∧ occurrence.error cause = error := by
  simp only [errors, List.mem_map, List.mem_filter, decide_eq_true_eq,
    BindingError.Cause.mem_all, true_and]

theorem errors_eq_nil_iff {occurrence : Occurrence} :
    occurrence.errors = [] ↔ ∀ cause, ¬ occurrence.Breaks cause := by
  simp only [errors, List.map_eq_nil_iff, List.filter_eq_nil_iff, decide_eq_true_eq]
  exact ⟨fun none cause => none cause cause.mem_all, fun none cause _ => none cause⟩

end Occurrence

end Lox
