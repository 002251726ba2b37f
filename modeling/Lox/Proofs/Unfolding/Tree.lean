import Lox.Proofs.Binding.Regions

/-!
Contract: trees in which some loops with an increment are written out.

A loop that evaluates its increment after each round is written out as a loop whose body is a
block of the old body and the increment. That is another loop where a `continue` ends the round,
for it leaves the whole block; and where the old body declares a name, which would then be local
to the block. So a loop is written out only if its body does neither.

Two trees are compared without their spans and addresses: what is left of a tree when it is read
from another text, in which more blocks stand around a place.

Owns: `Unfolds`, which jumps go on with the loop around, and what the comparison of two trees
says about their parts. Does not own: what the trees mean.
-/

set_option autoImplicit false

namespace Lox

/-! ## Jumps to the loop around a statement -/

mutual

/-- Whether a `continue` in the statement is about the loop around the statement. -/
def Stmt.continues : Stmt → Bool
  | .block statements _ => continuesAny statements
  | .conditional _ thenBranch elseBranch _ =>
      thenBranch.continues || continuesOptional elseBranch
  | .continue _ => true
  | .expression _ _ => false
  | .print _ _ => false
  | .var _ _ _ => false
  | .loop _ _ _ _ => false
  | .function _ _ => false
  | .return _ _ => false
  | .class _ _ _ _ => false
  | .break _ => false

/-- Whether a `continue` in the statement, if there is one, is about the loop around it. -/
def continuesOptional : Option Stmt → Bool
  | none => false
  | some stmt => stmt.continues

/-- Whether a `continue` in one of the statements is about the loop around them. -/
def continuesAny : List Stmt → Bool
  | [] => false
  | stmt :: rest => stmt.continues || continuesAny rest

end

/-! ## Trees -/

mutual

/-- The other expression is the same but for spans, addresses and loops that are written out. -/
inductive Expr.Unfolds : Expr → Expr → Prop
  | literal {value : Literal} {span span' : Span} :
      Expr.Unfolds (.literal value span) (.literal value span')
  | grouping {inner inner' : Expr} {span span' : Span} (unfolds : Expr.Unfolds inner inner') :
      Expr.Unfolds (.grouping inner span) (.grouping inner' span')
  | variable {reference reference' : Reference}
      (same : reference'.name.text = reference.name.text) :
      Expr.Unfolds (.variable reference) (.variable reference')
  | assign {target target' : Reference} {value value' : Expr} {span span' : Span}
      (same : target'.name.text = target.name.text) (unfolds : Expr.Unfolds value value') :
      Expr.Unfolds (.assign target value span) (.assign target' value' span')
  | unary {operator : UnaryOperator} {operand operand' : Expr} {span span' : Span}
      (unfolds : Expr.Unfolds operand operand') :
      Expr.Unfolds (.unary operator operand span) (.unary operator operand' span')
  | binary {operator : BinaryOperator} {left left' right right' : Expr} {span span' : Span}
      (unfoldsLeft : Expr.Unfolds left left') (unfoldsRight : Expr.Unfolds right right') :
      Expr.Unfolds (.binary operator left right span) (.binary operator left' right' span')
  | logical {operator : LogicalOperator} {left left' right right' : Expr} {span span' : Span}
      (unfoldsLeft : Expr.Unfolds left left') (unfoldsRight : Expr.Unfolds right right') :
      Expr.Unfolds (.logical operator left right span) (.logical operator left' right' span')
  | call {callee callee' : Expr} {arguments arguments' : List Expr} {span span' : Span}
      (unfolds : Expr.Unfolds callee callee') (unfoldsArguments : ExprsUnfold arguments arguments') :
      Expr.Unfolds (.call callee arguments span) (.call callee' arguments' span')
  | get {object object' : Expr} {name name' : Name} (unfolds : Expr.Unfolds object object')
      (same : name'.text = name.text) : Expr.Unfolds (.get object name) (.get object' name')
  | set {object object' : Expr} {name name' : Name} {value value' : Expr} {span span' : Span}
      (unfolds : Expr.Unfolds object object') (same : name'.text = name.text)
      (unfoldsValue : Expr.Unfolds value value') :
      Expr.Unfolds (.set object name value span) (.set object' name' value' span')
  | this {address address' : Option Address} {span span' : Span} :
      Expr.Unfolds (.this address span) (.this address' span')
  | super {address address' : Option Address} {method method' : Name} {span span' : Span}
      (same : method'.text = method.text) :
      Expr.Unfolds (.super address method span) (.super address' method' span')
  | lambda {function function' : FunctionDeclaration}
      (unfolds : FunctionUnfolds function function') :
      Expr.Unfolds (.lambda function) (.lambda function')

/-- The other expressions are the same, one by one. -/
inductive ExprsUnfold : List Expr → List Expr → Prop
  | nil : ExprsUnfold [] []
  | cons {expr expr' : Expr} {rest rest' : List Expr} (unfolds : Expr.Unfolds expr expr')
      (unfoldRest : ExprsUnfold rest rest') : ExprsUnfold (expr :: rest) (expr' :: rest')

/-- The other optional expression is the same. -/
inductive OptionalExprUnfolds : Option Expr → Option Expr → Prop
  | none : OptionalExprUnfolds none none
  | some {expr expr' : Expr} (unfolds : Expr.Unfolds expr expr') :
      OptionalExprUnfolds (some expr) (some expr')

/-- The other statement is the same but for spans, addresses and loops that are written out. -/
inductive Stmt.Unfolds : Stmt → Stmt → Prop
  | expression {value value' : Expr} {span span' : Span} (unfolds : Expr.Unfolds value value') :
      Stmt.Unfolds (.expression value span) (.expression value' span')
  | print {value value' : Expr} {span span' : Span} (unfolds : Expr.Unfolds value value') :
      Stmt.Unfolds (.print value span) (.print value' span')
  | var {name name' : Name} {initializer initializer' : Option Expr} {span span' : Span}
      (same : name'.text = name.text) (unfolds : OptionalExprUnfolds initializer initializer') :
      Stmt.Unfolds (.var name initializer span) (.var name' initializer' span')
  | block {statements statements' : List Stmt} {span span' : Span}
      (unfold : StmtsUnfold statements statements') :
      Stmt.Unfolds (.block statements span) (.block statements' span')
  | conditional {condition condition' : Expr} {thenBranch thenBranch' : Stmt}
      {elseBranch elseBranch' : Option Stmt} {span span' : Span}
      (unfoldsCondition : Expr.Unfolds condition condition')
      (unfoldsThen : Stmt.Unfolds thenBranch thenBranch')
      (unfoldsElse : OptionalStmtUnfolds elseBranch elseBranch') :
      Stmt.Unfolds (.conditional condition thenBranch elseBranch span)
        (.conditional condition' thenBranch' elseBranch' span')
  | loop {condition condition' : Expr} {body body' : Stmt} {increment increment' : Option Expr}
      {span span' : Span} (unfoldsCondition : Expr.Unfolds condition condition')
      (unfoldsBody : Stmt.Unfolds body body')
      (unfoldsIncrement : OptionalExprUnfolds increment increment') :
      Stmt.Unfolds (.loop condition body increment span) (.loop condition' body' increment' span')
  /-- The increment of a loop is written out: it ends each round as a statement of its own. -/
  | writtenOut {condition condition' : Expr} {body body' : Stmt} {increment increment' : Expr}
      {span span' spanOfRound spanOfIncrement : Span}
      (unfoldsCondition : Expr.Unfolds condition condition') (unfoldsBody : Stmt.Unfolds body body')
      (unfoldsIncrement : Expr.Unfolds increment increment')
      (undeclaring : body.declares = []) (notContinuing : body.continues = false) :
      Stmt.Unfolds (.loop condition body (some increment) span)
        (.loop condition' (.block [body', .expression increment' spanOfIncrement] spanOfRound)
          none span')
  | function {declaration declaration' : FunctionDeclaration} {span span' : Span}
      (unfolds : FunctionUnfolds declaration declaration') :
      Stmt.Unfolds (.function declaration span) (.function declaration' span')
  | return {value value' : Option Expr} {span span' : Span}
      (unfolds : OptionalExprUnfolds value value') :
      Stmt.Unfolds (.return value span) (.return value' span')
  | class {name name' : Name} {superclass superclass' : Option Reference}
      {methods methods' : List FunctionDeclaration} {span span' : Span}
      (same : name'.text = name.text)
      (sameSuperclass : superclass'.map (·.name.text) = superclass.map (·.name.text))
      (unfold : FunctionsUnfold methods methods') :
      Stmt.Unfolds (.class name superclass methods span) (.class name' superclass' methods' span')
  | break {span span' : Span} : Stmt.Unfolds (.break span) (.break span')
  | continue {span span' : Span} : Stmt.Unfolds (.continue span) (.continue span')

/-- The other optional statement is the same. -/
inductive OptionalStmtUnfolds : Option Stmt → Option Stmt → Prop
  | none : OptionalStmtUnfolds none none
  | some {stmt stmt' : Stmt} (unfolds : Stmt.Unfolds stmt stmt') :
      OptionalStmtUnfolds (some stmt) (some stmt')

/-- The other statements are the same, one by one. -/
inductive StmtsUnfold : List Stmt → List Stmt → Prop
  | nil : StmtsUnfold [] []
  | cons {stmt stmt' : Stmt} {rest rest' : List Stmt} (unfolds : Stmt.Unfolds stmt stmt')
      (unfoldRest : StmtsUnfold rest rest') : StmtsUnfold (stmt :: rest) (stmt' :: rest')

/-- The other function is the same. -/
inductive FunctionUnfolds : FunctionDeclaration → FunctionDeclaration → Prop
  | mk {name name' : Name} {parameters parameters' : List Name} {body body' : List Stmt}
      {isGetter : Bool} (same : name'.text = name.text)
      (sameParameters : parameters'.map Name.text = parameters.map Name.text)
      (unfold : StmtsUnfold body body') :
      FunctionUnfolds ⟨name, parameters, body, isGetter⟩ ⟨name', parameters', body', isGetter⟩

/-- The other functions are the same, one by one. -/
inductive FunctionsUnfold : List FunctionDeclaration → List FunctionDeclaration → Prop
  | nil : FunctionsUnfold [] []
  | cons {function function' : FunctionDeclaration} {rest rest' : List FunctionDeclaration}
      (unfolds : FunctionUnfolds function function') (unfoldRest : FunctionsUnfold rest rest') :
      FunctionsUnfold (function :: rest) (function' :: rest')

end

/-- The other program is the same but for spans, addresses and loops that are written out. -/
def Program.Unfolds (program other : Program) : Prop :=
  StmtsUnfold program.statements other.statements

/-! ## No loop need be written out -/

mutual

theorem Expr.Unfolds.refl : (expr : Expr) → expr.Unfolds expr
  | .literal _ _ => .literal
  | .grouping inner _ => .grouping (.refl inner)
  | .variable _ => .variable rfl
  | .assign _ value _ => .assign rfl (.refl value)
  | .unary _ operand _ => .unary (.refl operand)
  | .binary _ left right _ => .binary (.refl left) (.refl right)
  | .logical _ left right _ => .logical (.refl left) (.refl right)
  | .call callee arguments _ => .call (.refl callee) (.refl arguments)
  | .get object _ => .get (.refl object) rfl
  | .set object _ value _ => .set (.refl object) rfl (.refl value)
  | .this _ _ => .this
  | .super _ _ _ => .super rfl
  | .lambda function => .lambda (.refl function)

theorem ExprsUnfold.refl : (exprs : List Expr) → ExprsUnfold exprs exprs
  | [] => .nil
  | expr :: rest => .cons (.refl expr) (.refl rest)

theorem OptionalExprUnfolds.refl : (expr : Option Expr) → OptionalExprUnfolds expr expr
  | none => .none
  | some expr => .some (.refl expr)

theorem Stmt.Unfolds.refl : (stmt : Stmt) → stmt.Unfolds stmt
  | .expression value _ => .expression (.refl value)
  | .print value _ => .print (.refl value)
  | .var _ initializer _ => .var rfl (.refl initializer)
  | .block statements _ => .block (.refl statements)
  | .conditional condition thenBranch elseBranch _ =>
      .conditional (.refl condition) (.refl thenBranch) (.refl elseBranch)
  | .loop condition body increment _ => .loop (.refl condition) (.refl body) (.refl increment)
  | .function declaration _ => .function (.refl declaration)
  | .return value _ => .return (.refl value)
  | .class _ _ methods _ => .class rfl rfl (.refl methods)
  | .break _ => .break
  | .continue _ => .continue

theorem OptionalStmtUnfolds.refl : (stmt : Option Stmt) → OptionalStmtUnfolds stmt stmt
  | none => .none
  | some stmt => .some (.refl stmt)

theorem StmtsUnfold.refl : (stmts : List Stmt) → StmtsUnfold stmts stmts
  | [] => .nil
  | stmt :: rest => .cons (.refl stmt) (.refl rest)

theorem FunctionUnfolds.refl : (function : FunctionDeclaration) → FunctionUnfolds function function
  | ⟨_, _, body, _⟩ => .mk rfl rfl (.refl body)

theorem FunctionsUnfold.refl : (functions : List FunctionDeclaration) →
    FunctionsUnfold functions functions
  | [] => .nil
  | function :: rest => .cons (.refl function) (.refl rest)

end

/-! ## What is the same -/

mutual

/-- The same names are declared in the scope around the statements. -/
theorem Stmt.Unfolds.declares {stmt other : Stmt} (unfolds : stmt.Unfolds other) :
    other.declares = stmt.declares :=
  match unfolds with
  | .expression _ => by simp only [Stmt.declares]
  | .print _ => by simp only [Stmt.declares]
  | .var same _ => by simp only [Stmt.declares, same]
  | .block _ => by simp only [Stmt.declares]
  | .conditional _ unfoldsThen unfoldsElse => by
      simp only [Stmt.declares, unfoldsThen.declares, unfoldsElse.declares]
  | .loop _ unfoldsBody _ => by simp only [Stmt.declares, unfoldsBody.declares]
  | .writtenOut _ _ _ undeclaring _ => by simp only [Stmt.declares, undeclaring]
  | .function (.mk same _ _) => by simp only [Stmt.declares, same]
  | .return _ => by simp only [Stmt.declares]
  | .class same _ _ => by simp only [Stmt.declares, same]
  | .break => by simp only [Stmt.declares]
  | .continue => by simp only [Stmt.declares]

theorem OptionalStmtUnfolds.declares {stmt other : Option Stmt}
    (unfolds : OptionalStmtUnfolds stmt other) :
    declaresOfOptionalStmt other = declaresOfOptionalStmt stmt :=
  match unfolds with
  | .none => rfl
  | .some unfolds => by simp only [declaresOfOptionalStmt, unfolds.declares]

end

namespace FunctionUnfolds

variable {function other : FunctionDeclaration}

theorem name (unfolds : FunctionUnfolds function other) : other.name.text = function.name.text := by
  cases unfolds with
  | mk same _ _ => exact same

theorem parameters (unfolds : FunctionUnfolds function other) :
    other.parameters.map Name.text = function.parameters.map Name.text := by
  cases unfolds with
  | mk _ sameParameters _ => exact sameParameters

theorem body (unfolds : FunctionUnfolds function other) : StmtsUnfold function.body other.body := by
  cases unfolds with
  | mk _ _ unfold => exact unfold

theorem isGetter (unfolds : FunctionUnfolds function other) :
    other.isGetter = function.isGetter := by
  cases unfolds with
  | mk _ _ _ => rfl

theorem isInitializer (unfolds : FunctionUnfolds function other) :
    other.isInitializer = function.isInitializer := by
  simp only [Declaration.isInitializer, unfolds.name, unfolds.isGetter]

end FunctionUnfolds

end Lox
