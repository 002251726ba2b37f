import Lox.Grammar.Expression

/-!
Contract: the grammar of the language, as a system of derivations.

`Derives phrase tokens tree` says that the tokens are a phrase of this sort and
that `tree` is what they mean. Every rule of the grammar is one constructor; the
rules mention neither a parser nor an order of reading.

What a bare list of productions leaves open is settled in the rules. Operators of
one level group to the left, because only the left operand may be of the same
level. An `else` belongs to the nearest `if`, because the branch before an `else`
must not be `dangling`: it must not itself end in an `if` that lacks one. The left
side of an assignment is a variable or a property. No list is longer than 255.

Owns: phrases, their trees, derivations. Does not own: how a derivation is found.
-/

set_option autoImplicit false

namespace Lox.Grammar

/-! ## Phrases -/

/-- The sorts of phrases. -/
inductive Phrase where
  /-- An expression, assignments included. -/
  | expression
  /-- An operation with operators of these levels, the loosest first; an operand
  where no level is left. -/
  | operation (levels : List Level)
  /-- A primary expression with calls and properties behind it. -/
  | call
  | primary
  | parameter
  /-- Parameters between parentheses, and a body. -/
  | function
  /-- Declarations between braces. -/
  | body
  | method
  /-- What may follow the name in the declaration of a variable. -/
  | initializer
  | varDeclaration
  | expressionStatement
  /-- The first clause of a `for` statement, with its semicolon. -/
  | forStart
  /-- A statement. A dangling one ends in an `if` that lacks its `else`. -/
  | statement (dangling : Bool)
  | declaration
  | optional (item : Phrase)
  /-- Items one after the other. -/
  | repeated (item : Phrase)
  /-- At least one item, with commas between them. -/
  | separated (item : Phrase)
  /-- At most 255 items, with commas between them. -/
  | list (item : Phrase)

/-- What a phrase means. -/
@[reducible] def Phrase.Tree : Phrase → Type
  | .expression | .operation _ | .call | .primary => Expr
  | .parameter => Name
  | .function => List Name × List Stmt
  | .body => List Stmt
  | .method => FunctionDeclaration
  | .initializer => Option Expr
  | .varDeclaration | .expressionStatement | .statement _ | .declaration => Stmt
  | .forStart => Option Stmt
  | .optional item => Option item.Tree
  | .repeated item | .separated item | .list item => List item.Tree

/-! ## Tokens with a meaning of their own -/

/-- The operators between two operands: their level and what they mean. -/
inductive Infix : Level → Token.Kind → Connective → Prop where
  | or : Infix .or (.keyword .or) (.logical .or)
  | and : Infix .and (.keyword .and) (.logical .and)
  | notEqual : Infix .equality (.symbol .bangEqual) (.binary .notEqual)
  | equal : Infix .equality (.symbol .equalEqual) (.binary .equal)
  | greater : Infix .comparison (.symbol .greater) (.binary .greater)
  | greaterEqual : Infix .comparison (.symbol .greaterEqual) (.binary .greaterEqual)
  | less : Infix .comparison (.symbol .less) (.binary .less)
  | lessEqual : Infix .comparison (.symbol .lessEqual) (.binary .lessEqual)
  | subtract : Infix .term (.symbol .minus) (.binary .subtract)
  | add : Infix .term (.symbol .plus) (.binary .add)
  | divide : Infix .factor (.symbol .slash) (.binary .divide)
  | multiply : Infix .factor (.symbol .star) (.binary .multiply)

/-- The operators before an operand. -/
inductive Prefixed : Token.Kind → UnaryOperator → Prop where
  | not : Prefixed (.symbol .bang) .not
  | negate : Prefixed (.symbol .minus) .negate

/-- The tokens that are an expression by themselves, with their value. -/
inductive Constant : Token.Kind → Literal → Prop where
  | false : Constant (.keyword .false) (.boolean Bool.false)
  | true : Constant (.keyword .true) (.boolean Bool.true)
  | nil : Constant (.keyword .nil) .nil
  | number (value : Float) : Constant (.number value) (.number value)
  | string (value : String) : Constant (.string value) (.string value)

/-- The name that a token writes. -/
def nameOf (token : Token) : Name := ⟨token.lexeme, token.span⟩

/-- The superclass clause of a class, which may be absent. -/
inductive Inheritance : List Token → Option Reference → Prop where
  | absent : Inheritance [] none
  | present (mark parent : Token) (less : mark.kind = .symbol .less)
      (identifier : parent.kind = .identifier) :
      Inheritance [mark, parent] (some ⟨nameOf parent, none⟩)

/-- The operation of a connective on two operands. -/
def operationOf (left : Expr) (span : Span) (right : Expr) : Connective → Expr
  | .logical operator => .logical operator left right span
  | .binary operator => .binary operator left right span

/-- What a `for` statement means: a loop with an increment, in a block with the
first clause if there is one. -/
def meaningOfFor (start : Option Stmt) (condition : Expr) (increment : Option Expr)
    (body : Stmt) (span : Span) : Stmt :=
  match start with
  | none => .loop condition body increment span
  | some first => .block [first, .loop condition body increment span] span

/-! ## Derivations -/

/-- The tokens are a phrase of this sort, and mean this tree. -/
inductive Derives : (phrase : Phrase) → List Token → phrase.Tree → Prop where
  -- Expressions, from the loosest to the tightest.
  | operation {tokens : List Token} {tree : Expr}
      (inner : Derives (.operation [.or, .and, .equality, .comparison, .term, .factor])
        tokens tree) :
      Derives .expression tokens tree
  | assignVariable {left right : List Token} {equals : Token} {target : Reference} {value : Expr}
      (place : Derives (.operation [.or, .and, .equality, .comparison, .term, .factor])
        left (Expr.variable target))
      (sign : equals.kind = .symbol .equal) (source : Derives .expression right value) :
      Derives .expression (left ++ equals :: right)
        (Expr.assign ⟨target.name, none⟩ value equals.span)
  | assignProperty {left right : List Token} {equals : Token} {object : Expr} {name : Name}
      {value : Expr}
      (place : Derives (.operation [.or, .and, .equality, .comparison, .term, .factor])
        left (Expr.get object name))
      (sign : equals.kind = .symbol .equal) (source : Derives .expression right value) :
      Derives .expression (left ++ equals :: right) (Expr.set object name value equals.span)
  | tighter {level : Level} {levels : List Level} {tokens : List Token} {tree : Expr}
      (inner : Derives (.operation levels) tokens tree) :
      Derives (.operation (level :: levels)) tokens tree
  | joined {level : Level} {levels : List Level} {left right : List Token} {operator : Token}
      {first second : Expr} {connective : Connective}
      (leftOperand : Derives (.operation (level :: levels)) left first)
      (sign : Infix level operator.kind connective)
      (rightOperand : Derives (.operation levels) right second) :
      Derives (.operation (level :: levels)) (left ++ operator :: right)
        (operationOf first operator.span second connective)
  | prefixed {tokens : List Token} {token : Token} {operator : UnaryOperator} {operand : Expr}
      (sign : Prefixed token.kind operator) (inner : Derives (.operation []) tokens operand) :
      Derives (.operation []) (token :: tokens) (Expr.unary operator operand token.span)
  | operand {tokens : List Token} {tree : Expr} (inner : Derives .call tokens tree) :
      Derives (.operation []) tokens tree
  | primary {tokens : List Token} {tree : Expr} (inner : Derives .primary tokens tree) :
      Derives .call tokens tree
  | call {left between : List Token} {opening closing : Token} {callee : Expr}
      {arguments : List Expr} (called : Derives .call left callee)
      (opens : opening.kind = .symbol .leftParen)
      (given : Derives (.list .expression) between arguments)
      (closes : closing.kind = .symbol .rightParen) :
      Derives .call (left ++ opening :: (between ++ [closing]))
        (Expr.call callee arguments closing.span)
  | property {left : List Token} {dot word : Token} {object : Expr}
      (owner : Derives .call left object) (sign : dot.kind = .symbol .dot)
      (identifier : word.kind = .identifier) :
      Derives .call (left ++ [dot, word]) (Expr.get object (nameOf word))
  | constant {token : Token} {value : Literal} (sign : Constant token.kind value) :
      Derives .primary [token] (Expr.literal value token.span)
  | reference {word : Token} (identifier : word.kind = .identifier) :
      Derives .primary [word] (Expr.variable ⟨nameOf word, none⟩)
  | this {word : Token} (sign : word.kind = .keyword .this) :
      Derives .primary [word] (Expr.this none word.span)
  | super {word dot method : Token} (sign : word.kind = .keyword .super)
      (point : dot.kind = .symbol .dot) (identifier : method.kind = .identifier) :
      Derives .primary [word, dot, method] (Expr.super none (nameOf method) word.span)
  | grouping {tokens : List Token} {opening closing : Token} {tree : Expr}
      (opens : opening.kind = .symbol .leftParen) (inner : Derives .expression tokens tree)
      (closes : closing.kind = .symbol .rightParen) :
      Derives .primary (opening :: (tokens ++ [closing])) (Expr.grouping tree opening.span)
  | lambda {word : Token} {tokens : List Token} {parameters : List Name} {body : List Stmt}
      (sign : word.kind = .keyword .fun) (rest : Derives .function tokens (parameters, body)) :
      Derives .primary (word :: tokens) (Expr.lambda ⟨nameOf word, parameters, body, false⟩)
  -- Functions and their parts.
  | parameter {word : Token} (identifier : word.kind = .identifier) :
      Derives .parameter [word] (nameOf word)
  | function {between tokens : List Token} {opening closing : Token} {parameters : List Name}
      {statements : List Stmt} (opens : opening.kind = .symbol .leftParen)
      (named : Derives (.list .parameter) between parameters)
      (closes : closing.kind = .symbol .rightParen) (body : Derives .body tokens statements) :
      Derives .function (opening :: (between ++ closing :: tokens)) (parameters, statements)
  | body {tokens : List Token} {opening closing : Token} {statements : List Stmt}
      (opens : opening.kind = .symbol .leftBrace)
      (inner : Derives (.repeated .declaration) tokens statements)
      (closes : closing.kind = .symbol .rightBrace) :
      Derives .body (opening :: (tokens ++ [closing])) statements
  | method {word : Token} {tokens : List Token} {parameters : List Name} {statements : List Stmt}
      (identifier : word.kind = .identifier)
      (rest : Derives .function tokens (parameters, statements)) :
      Derives .method (word :: tokens) (⟨nameOf word, parameters, statements, false⟩)
  | getter {word : Token} {tokens : List Token} {statements : List Stmt}
      (identifier : word.kind = .identifier) (body : Derives .body tokens statements) :
      Derives .method (word :: tokens) (⟨nameOf word, [], statements, true⟩)
  -- Declarations.
  | noInitializer : Derives .initializer [] none
  | initializer {tokens : List Token} {equals : Token} {value : Expr}
      (sign : equals.kind = .symbol .equal) (inner : Derives .expression tokens value) :
      Derives .initializer (equals :: tokens) (some value)
  | varDeclaration {word name semicolon : Token} {tokens : List Token} {value : Option Expr}
      (sign : word.kind = .keyword .var) (identifier : name.kind = .identifier)
      (inner : Derives .initializer tokens value) (ends : semicolon.kind = .symbol .semicolon) :
      Derives .varDeclaration (word :: name :: (tokens ++ [semicolon]))
        (Stmt.var (nameOf name) value word.span)
  | ofVariable {tokens : List Token} {tree : Stmt} (inner : Derives .varDeclaration tokens tree) :
      Derives .declaration tokens tree
  | ofFunction {word name : Token} {tokens : List Token} {parameters : List Name}
      {statements : List Stmt} (sign : word.kind = .keyword .fun)
      (identifier : name.kind = .identifier)
      (rest : Derives .function tokens (parameters, statements)) :
      Derives .declaration (word :: name :: tokens)
        (Stmt.function ⟨nameOf name, parameters, statements, false⟩ word.span)
  | ofClass {word name opening closing : Token} {inherits tokens : List Token}
      {superclass : Option Reference} {methods : List FunctionDeclaration}
      (sign : word.kind = .keyword .class) (identifier : name.kind = .identifier)
      (clause : Inheritance inherits superclass) (opens : opening.kind = .symbol .leftBrace)
      (inner : Derives (.repeated .method) tokens methods)
      (closes : closing.kind = .symbol .rightBrace) :
      Derives .declaration (word :: name :: (inherits ++ opening :: (tokens ++ [closing])))
        (Stmt.class (nameOf name) superclass methods word.span)
  | ofStatement {dangling : Bool} {tokens : List Token} {tree : Stmt}
      (inner : Derives (.statement dangling) tokens tree) : Derives .declaration tokens tree
  -- Statements.
  | expressionStatement {first semicolon : Token} {tokens : List Token} {value : Expr}
      (inner : Derives .expression (first :: tokens) value)
      (ends : semicolon.kind = .symbol .semicolon) :
      Derives .expressionStatement (first :: (tokens ++ [semicolon]))
        (Stmt.expression value first.span)
  | ofExpression {tokens : List Token} {tree : Stmt}
      (inner : Derives .expressionStatement tokens tree) :
      Derives (.statement false) tokens tree
  | print {word semicolon : Token} {tokens : List Token} {value : Expr}
      (sign : word.kind = .keyword .print) (inner : Derives .expression tokens value)
      (ends : semicolon.kind = .symbol .semicolon) :
      Derives (.statement false) (word :: (tokens ++ [semicolon])) (Stmt.print value word.span)
  | return {word semicolon : Token} {tokens : List Token} {value : Option Expr}
      (sign : word.kind = .keyword .return)
      (inner : Derives (.optional .expression) tokens value)
      (ends : semicolon.kind = .symbol .semicolon) :
      Derives (.statement false) (word :: (tokens ++ [semicolon])) (Stmt.return value word.span)
  | break {word semicolon : Token} (sign : word.kind = .keyword .break)
      (ends : semicolon.kind = .symbol .semicolon) :
      Derives (.statement false) [word, semicolon] (Stmt.break word.span)
  | continue {word semicolon : Token} (sign : word.kind = .keyword .continue)
      (ends : semicolon.kind = .symbol .semicolon) :
      Derives (.statement false) [word, semicolon] (Stmt.continue word.span)
  | block {opening : Token} {tokens : List Token} {statements : List Stmt}
      (inner : Derives .body (opening :: tokens) statements) :
      Derives (.statement false) (opening :: tokens) (Stmt.block statements opening.span)
  | conditional {dangling : Bool} {word opening closing : Token} {between tokens : List Token}
      {condition : Expr} {branch : Stmt} (sign : word.kind = .keyword .if)
      (opens : opening.kind = .symbol .leftParen) (test : Derives .expression between condition)
      (closes : closing.kind = .symbol .rightParen)
      (chosen : Derives (.statement dangling) tokens branch) :
      Derives (.statement true) (word :: opening :: (between ++ closing :: tokens))
        (Stmt.conditional condition branch none word.span)
  | conditionalElse {dangling : Bool} {word opening closing mark : Token}
      {between left right : List Token} {condition : Expr} {branch otherwise : Stmt}
      (sign : word.kind = .keyword .if) (opens : opening.kind = .symbol .leftParen)
      (test : Derives .expression between condition)
      (closes : closing.kind = .symbol .rightParen)
      (chosen : Derives (.statement false) left branch) (elseSign : mark.kind = .keyword .else)
      (other : Derives (.statement dangling) right otherwise) :
      Derives (.statement dangling)
        (word :: opening :: (between ++ closing :: (left ++ mark :: right)))
        (Stmt.conditional condition branch (some otherwise) word.span)
  | whileLoop {dangling : Bool} {word opening closing : Token} {between tokens : List Token}
      {condition : Expr} {body : Stmt} (sign : word.kind = .keyword .while)
      (opens : opening.kind = .symbol .leftParen) (test : Derives .expression between condition)
      (closes : closing.kind = .symbol .rightParen)
      (repeated : Derives (.statement dangling) tokens body) :
      Derives (.statement dangling) (word :: opening :: (between ++ closing :: tokens))
        (Stmt.loop condition body none word.span)
  | startAbsent {semicolon : Token} (ends : semicolon.kind = .symbol .semicolon) :
      Derives .forStart [semicolon] none
  | startVariable {tokens : List Token} {tree : Stmt} (inner : Derives .varDeclaration tokens tree) :
      Derives .forStart tokens (some tree)
  | startExpression {tokens : List Token} {tree : Stmt}
      (inner : Derives .expressionStatement tokens tree) : Derives .forStart tokens (some tree)
  | forLoop {dangling : Bool} {word opening semicolon closing : Token}
      {first second third tokens : List Token} {start : Option Stmt}
      {condition increment : Option Expr} {body : Stmt} (sign : word.kind = .keyword .for)
      (opens : opening.kind = .symbol .leftParen) (starts : Derives .forStart first start)
      (test : Derives (.optional .expression) second condition)
      (ends : semicolon.kind = .symbol .semicolon)
      (steps : Derives (.optional .expression) third increment)
      (closes : closing.kind = .symbol .rightParen)
      (repeated : Derives (.statement dangling) tokens body) :
      Derives (.statement dangling)
        (word :: opening :: (first ++ (second ++ semicolon :: (third ++ closing :: tokens))))
        (meaningOfFor start
          (condition.getD (.literal (.boolean true) semicolon.span)) increment body word.span)
  -- Sequences.
  | none (item : Phrase) : Derives (.optional item) [] none
  | some {item : Phrase} {tokens : List Token} {tree : item.Tree}
      (inner : Derives item tokens tree) : Derives (.optional item) tokens (some tree)
  | done (item : Phrase) : Derives (.repeated item) [] []
  | again {item : Phrase} {left right : List Token} {tree : item.Tree} {trees : List item.Tree}
      (first : Derives item left tree) (others : Derives (.repeated item) right trees) :
      Derives (.repeated item) (left ++ right) (tree :: trees)
  | last {item : Phrase} {tokens : List Token} {tree : item.Tree}
      (inner : Derives item tokens tree) : Derives (.separated item) tokens [tree]
  | comma {item : Phrase} {left right : List Token} {sign : Token} {tree : item.Tree}
      {trees : List item.Tree} (first : Derives item left tree)
      (separates : sign.kind = .symbol .comma) (others : Derives (.separated item) right trees) :
      Derives (.separated item) (left ++ sign :: right) (tree :: trees)
  | empty (item : Phrase) : Derives (.list item) [] []
  | list {item : Phrase} {tokens : List Token} {trees : List item.Tree}
      (inner : Derives (.separated item) tokens trees) (short : trees.length ≤ 255) :
      Derives (.list item) tokens trees

end Lox.Grammar
