import Lox.Proofs.Binding.Unbound

/-!
Contract: trees are well formed when they are read.

A tree that is read from tokens is `WellFormed` over them, at every depth. What it names is named
by identifiers among the tokens, and what it does to values is written by operators among them. No
branch and no loop body is a declaration, only methods are getters, getters have no parameters, and
no list is longer than 255. Nothing is bound yet.

Main statements: `Program.wellFormed_of_ofTokens`, `Expr.wellFormed_of_ofTokens`.

Owns: well-formed trees, and the blocks and bodies in a tree. Does not own: what running makes of
them.
-/

set_option autoImplicit false

namespace Lox

open Grammar

/-! ## Trees -/

/-- One of the tokens stands there and is of such a kind. -/
def Shows (tokens : List Token) (span : Span) (test : Token.Kind → Prop) : Prop :=
  ∃ token ∈ tokens, token.span = span ∧ test token.kind

/-- The name is that of a token of such a kind. -/
def Name.Names (tokens : List Token) (test : Token.Kind → Prop) (name : Name) : Prop :=
  ∃ token ∈ tokens, test token.kind ∧ nameOf token = name

/-- The name is that of an identifier. -/
def Name.IsIdentifier (tokens : List Token) (name : Name) : Prop :=
  name.Names tokens (· = .identifier)

/-- The use of a variable names an identifier and is not bound yet. -/
def Reference.WellFormed (tokens : List Token) (reference : Reference) : Prop :=
  reference.address = none ∧ reference.name.IsIdentifier tokens

/-- The token is a constant, or a semicolon where the condition of a loop is missing. -/
def StandsFor (value : Literal) (kind : Token.Kind) : Prop :=
  Constant kind value ∨ kind = .symbol .semicolon ∧ value = .boolean true

mutual

/-- The expression is as the grammar has it. -/
def Expr.WellFormed (tokens : List Token) : Expr → Prop
  | .literal value span => Shows tokens span (StandsFor value)
  | .grouping inner _ => inner.WellFormed tokens
  | .variable reference => reference.WellFormed tokens
  | .assign target value _ => target.WellFormed tokens ∧ value.WellFormed tokens
  | .unary operator operand span =>
      Shows tokens span (Prefixed · operator) ∧ operand.WellFormed tokens
  | .binary operator left right span =>
      (∃ level, Shows tokens span (Infix level · (.binary operator))) ∧
        left.WellFormed tokens ∧ right.WellFormed tokens
  | .logical operator left right span =>
      (∃ level, Shows tokens span (Infix level · (.logical operator))) ∧
        left.WellFormed tokens ∧ right.WellFormed tokens
  | .call callee arguments _ =>
      callee.WellFormed tokens ∧ arguments.length ≤ 255 ∧ wellFormedExprs tokens arguments
  | .get object name => object.WellFormed tokens ∧ name.IsIdentifier tokens
  | .set object name value _ =>
      object.WellFormed tokens ∧ name.IsIdentifier tokens ∧ value.WellFormed tokens
  | .this address _ => address = none
  | .super address method _ => address = none ∧ method.IsIdentifier tokens
  | .lambda function =>
      function.name.Names tokens (· = .keyword .fun) ∧ function.isGetter = false ∧
        wellFormedFunction tokens function

/-- The expressions are as the grammar has them. -/
def wellFormedExprs (tokens : List Token) : List Expr → Prop
  | [] => True
  | expr :: rest => expr.WellFormed tokens ∧ wellFormedExprs tokens rest

/-- The expression, if there is one, is as the grammar has it. -/
def wellFormedOptionalExpr (tokens : List Token) : Option Expr → Prop
  | none => True
  | some expr => expr.WellFormed tokens

/-- The statement is as the grammar has it. -/
def Stmt.WellFormed (tokens : List Token) : Stmt → Prop
  | .expression value _ => value.WellFormed tokens
  | .print value _ => value.WellFormed tokens
  | .var name initializer _ =>
      name.IsIdentifier tokens ∧ wellFormedOptionalExpr tokens initializer
  | .block statements _ => wellFormedStmts tokens statements
  | .conditional condition thenBranch elseBranch _ =>
      condition.WellFormed tokens ∧
        (thenBranch.WellFormed tokens ∧ thenBranch.declared? = none) ∧
        wellFormedBranch tokens elseBranch
  | .loop condition body increment _ =>
      condition.WellFormed tokens ∧ (body.WellFormed tokens ∧ body.declared? = none) ∧
        wellFormedOptionalExpr tokens increment
  | .function declaration _ =>
      declaration.name.IsIdentifier tokens ∧ declaration.isGetter = false ∧
        wellFormedFunction tokens declaration
  | .return value _ => wellFormedOptionalExpr tokens value
  | .class name superclass methods _ =>
      name.IsIdentifier tokens ∧ (∀ reference ∈ superclass, reference.WellFormed tokens) ∧
        wellFormedMethods tokens methods
  | .break _ => True
  | .continue _ => True

/-- The branch, if there is one, is as the grammar has it, and no declaration. -/
def wellFormedBranch (tokens : List Token) : Option Stmt → Prop
  | none => True
  | some branch => branch.WellFormed tokens ∧ branch.declared? = none

/-- The statements are as the grammar has them. -/
def wellFormedStmts (tokens : List Token) : List Stmt → Prop
  | [] => True
  | stmt :: rest => stmt.WellFormed tokens ∧ wellFormedStmts tokens rest

/-- The parameters and the body are as the grammar has them. -/
def wellFormedFunction (tokens : List Token) : FunctionDeclaration → Prop
  | ⟨_, parameters, body, _⟩ =>
      (parameters.length ≤ 255 ∧ ∀ name ∈ parameters, name.IsIdentifier tokens) ∧
        wellFormedStmts tokens body

/-- The methods are as the grammar has them. A getter has no parameters. -/
def wellFormedMethods (tokens : List Token) : List FunctionDeclaration → Prop
  | [] => True
  | method :: rest =>
      (method.name.IsIdentifier tokens ∧ (method.isGetter = true → method.parameters = []) ∧
        wellFormedFunction tokens method) ∧ wellFormedMethods tokens rest

end

section Lists

variable {tokens : List Token}

theorem wellFormedExprs_iff {exprs : List Expr} :
    wellFormedExprs tokens exprs ↔ ∀ expr ∈ exprs, expr.WellFormed tokens := by
  induction exprs with
  | nil => simp [wellFormedExprs]
  | cons expr rest inductionHypothesis => simp [wellFormedExprs, inductionHypothesis]

theorem wellFormedStmts_iff {stmts : List Stmt} :
    wellFormedStmts tokens stmts ↔ ∀ stmt ∈ stmts, stmt.WellFormed tokens := by
  induction stmts with
  | nil => simp [wellFormedStmts]
  | cons stmt rest inductionHypothesis => simp [wellFormedStmts, inductionHypothesis]

theorem wellFormedMethods_iff {methods : List FunctionDeclaration} :
    wellFormedMethods tokens methods ↔ ∀ method ∈ methods, method.name.IsIdentifier tokens ∧
      (method.isGetter = true → method.parameters = []) ∧ wellFormedFunction tokens method := by
  induction methods with
  | nil => simp [wellFormedMethods]
  | cons method rest inductionHypothesis => simp [wellFormedMethods, inductionHypothesis]

theorem wellFormedOptionalExpr_iff {expr : Option Expr} :
    wellFormedOptionalExpr tokens expr ↔ ∀ found ∈ expr, found.WellFormed tokens := by
  cases expr <;> simp [wellFormedOptionalExpr]

end Lists

/-! ## Blocks and bodies -/

mutual

/-- The blocks and bodies in the expression, at every depth. -/
def Expr.bodies : Expr → List (List Stmt)
  | .literal _ _ => []
  | .grouping inner _ => inner.bodies
  | .variable _ => []
  | .assign _ value _ => value.bodies
  | .unary _ operand _ => operand.bodies
  | .binary _ left right _ => left.bodies ++ right.bodies
  | .logical _ left right _ => left.bodies ++ right.bodies
  | .call callee arguments _ => callee.bodies ++ bodiesOfExprs arguments
  | .get object _ => object.bodies
  | .set object _ value _ => object.bodies ++ value.bodies
  | .this _ _ => []
  | .super _ _ _ => []
  | .lambda function => bodiesOfFunction function

/-- The blocks and bodies in the expressions. -/
def bodiesOfExprs : List Expr → List (List Stmt)
  | [] => []
  | expr :: rest => expr.bodies ++ bodiesOfExprs rest

/-- The blocks and bodies in the expression, if there is one. -/
def bodiesOfOptionalExpr : Option Expr → List (List Stmt)
  | none => []
  | some expr => expr.bodies

/-- The blocks and bodies in the statement, at every depth. -/
def Stmt.bodies : Stmt → List (List Stmt)
  | .expression value _ => value.bodies
  | .print value _ => value.bodies
  | .var _ initializer _ => bodiesOfOptionalExpr initializer
  | .block statements _ => statements :: bodiesOfStmts statements
  | .conditional condition thenBranch elseBranch _ =>
      condition.bodies ++ (thenBranch.bodies ++ bodiesOfBranch elseBranch)
  | .loop condition body increment _ =>
      condition.bodies ++ (body.bodies ++ bodiesOfOptionalExpr increment)
  | .function declaration _ => bodiesOfFunction declaration
  | .return value _ => bodiesOfOptionalExpr value
  | .class _ _ methods _ => bodiesOfFunctions methods
  | .break _ => []
  | .continue _ => []

/-- The blocks and bodies in the branch, if there is one. -/
def bodiesOfBranch : Option Stmt → List (List Stmt)
  | none => []
  | some branch => branch.bodies

/-- The blocks and bodies in the statements. -/
def bodiesOfStmts : List Stmt → List (List Stmt)
  | [] => []
  | stmt :: rest => stmt.bodies ++ bodiesOfStmts rest

/-- The body of the function, and the blocks and bodies in it. -/
def bodiesOfFunction : FunctionDeclaration → List (List Stmt)
  | ⟨_, _, body, _⟩ => body :: bodiesOfStmts body

/-- The bodies of the functions, and the blocks and bodies in them. -/
def bodiesOfFunctions : List FunctionDeclaration → List (List Stmt)
  | [] => []
  | function :: rest => bodiesOfFunction function ++ bodiesOfFunctions rest

end

section Bodies

variable {tokens : List Token}

mutual

/-- In a well-formed expression all blocks and bodies are well formed. -/
theorem Expr.wellFormed_bodies : (expr : Expr) → expr.WellFormed tokens →
    ∀ body ∈ expr.bodies, wellFormedStmts tokens body
  | .literal _ _, _ => nofun
  | .grouping inner _, formed => inner.wellFormed_bodies formed
  | .variable _, _ => nofun
  | .assign _ value _, formed => value.wellFormed_bodies formed.2
  | .unary _ operand _, formed => operand.wellFormed_bodies formed.2
  | .binary _ left right _, formed => List.forall_mem_append.mpr
      ⟨left.wellFormed_bodies formed.2.1, right.wellFormed_bodies formed.2.2⟩
  | .logical _ left right _, formed => List.forall_mem_append.mpr
      ⟨left.wellFormed_bodies formed.2.1, right.wellFormed_bodies formed.2.2⟩
  | .call callee arguments _, formed => List.forall_mem_append.mpr
      ⟨callee.wellFormed_bodies formed.1, wellFormed_bodiesOfExprs arguments formed.2.2⟩
  | .get object _, formed => object.wellFormed_bodies formed.1
  | .set object _ value _, formed => List.forall_mem_append.mpr
      ⟨object.wellFormed_bodies formed.1, value.wellFormed_bodies formed.2.2⟩
  | .this _ _, _ => nofun
  | .super _ _ _, _ => nofun
  | .lambda function, formed => wellFormed_bodiesOfFunction function formed.2.2

theorem wellFormed_bodiesOfExprs : (exprs : List Expr) → wellFormedExprs tokens exprs →
    ∀ body ∈ bodiesOfExprs exprs, wellFormedStmts tokens body
  | [], _ => nofun
  | expr :: rest, formed => List.forall_mem_append.mpr
      ⟨expr.wellFormed_bodies formed.1, wellFormed_bodiesOfExprs rest formed.2⟩

theorem wellFormed_bodiesOfOptionalExpr : (expr : Option Expr) →
    wellFormedOptionalExpr tokens expr →
    ∀ body ∈ bodiesOfOptionalExpr expr, wellFormedStmts tokens body
  | none, _ => nofun
  | some expr, formed => expr.wellFormed_bodies formed

/-- In a well-formed statement all blocks and bodies are well formed. -/
theorem Stmt.wellFormed_bodies : (stmt : Stmt) → stmt.WellFormed tokens →
    ∀ body ∈ stmt.bodies, wellFormedStmts tokens body
  | .expression value _, formed => value.wellFormed_bodies formed
  | .print value _, formed => value.wellFormed_bodies formed
  | .var _ initializer _, formed => wellFormed_bodiesOfOptionalExpr initializer formed.2
  | .block statements _, formed =>
      List.forall_mem_cons.mpr ⟨formed, wellFormed_bodiesOfStmts statements formed⟩
  | .conditional condition thenBranch elseBranch _, formed => List.forall_mem_append.mpr
      ⟨condition.wellFormed_bodies formed.1, List.forall_mem_append.mpr
        ⟨thenBranch.wellFormed_bodies formed.2.1.1,
          wellFormed_bodiesOfBranch elseBranch formed.2.2⟩⟩
  | .loop condition body increment _, formed => List.forall_mem_append.mpr
      ⟨condition.wellFormed_bodies formed.1, List.forall_mem_append.mpr
        ⟨body.wellFormed_bodies formed.2.1.1,
          wellFormed_bodiesOfOptionalExpr increment formed.2.2⟩⟩
  | .function declaration _, formed => wellFormed_bodiesOfFunction declaration formed.2.2
  | .return value _, formed => wellFormed_bodiesOfOptionalExpr value formed
  | .class _ _ methods _, formed => wellFormed_bodiesOfFunctions methods formed.2.2
  | .break _, _ => nofun
  | .continue _, _ => nofun

theorem wellFormed_bodiesOfBranch : (branch : Option Stmt) → wellFormedBranch tokens branch →
    ∀ body ∈ bodiesOfBranch branch, wellFormedStmts tokens body
  | none, _ => nofun
  | some branch, formed => branch.wellFormed_bodies formed.1

theorem wellFormed_bodiesOfStmts : (stmts : List Stmt) → wellFormedStmts tokens stmts →
    ∀ body ∈ bodiesOfStmts stmts, wellFormedStmts tokens body
  | [], _ => nofun
  | stmt :: rest, formed => List.forall_mem_append.mpr
      ⟨stmt.wellFormed_bodies formed.1, wellFormed_bodiesOfStmts rest formed.2⟩

theorem wellFormed_bodiesOfFunction : (function : FunctionDeclaration) →
    wellFormedFunction tokens function →
    ∀ body ∈ bodiesOfFunction function, wellFormedStmts tokens body
  | ⟨_, _, body, _⟩, formed =>
      List.forall_mem_cons.mpr ⟨formed.2, wellFormed_bodiesOfStmts body formed.2⟩

theorem wellFormed_bodiesOfFunctions : (methods : List FunctionDeclaration) →
    wellFormedMethods tokens methods →
    ∀ body ∈ bodiesOfFunctions methods, wellFormedStmts tokens body
  | [], _ => nofun
  | method :: rest, formed => List.forall_mem_append.mpr
      ⟨wellFormed_bodiesOfFunction method formed.1.2.2,
        wellFormed_bodiesOfFunctions rest formed.2⟩

end

end Bodies

/-! ## Derivations -/

namespace Grammar

variable {all : List Token}

/-- What a phrase means is as the grammar has it. -/
def WellFormed (all : List Token) : (phrase : Phrase) → phrase.Tree → Prop
  | .expression, tree | .operation _, tree | .call, tree | .primary, tree =>
      Expr.WellFormed all tree
  | .parameter, tree => Name.IsIdentifier all tree
  | .function, tree =>
      (List.length (Prod.fst tree) ≤ 255 ∧
        ∀ name ∈ Prod.fst tree, Name.IsIdentifier all name) ∧
        wellFormedStmts all (Prod.snd tree)
  | .body, trees => wellFormedStmts all trees
  | .method, tree => wellFormedMethods all [tree]
  | .initializer, tree => wellFormedOptionalExpr all tree
  | .varDeclaration, tree | .declaration, tree => Stmt.WellFormed all tree
  | .expressionStatement, tree | .statement _, tree =>
      Stmt.WellFormed all tree ∧ Stmt.declared? tree = none
  | .forStart, tree => ∀ stmt ∈ (show Option Stmt from tree), Stmt.WellFormed all stmt
  | .optional item, tree =>
      ∀ found ∈ (show Option item.Tree from tree), WellFormed all item found
  | .repeated item, trees | .separated item, trees =>
      ∀ tree ∈ (show List item.Tree from trees), WellFormed all item tree
  | .list item, trees =>
      (show List item.Tree from trees).length ≤ 255 ∧
        ∀ tree ∈ (show List item.Tree from trees), WellFormed all item tree

theorem wellFormed_operationOf {level : Level} {operator : Token} {connective : Connective}
    {left right : Expr} (sign : Infix level operator.kind connective) (member : operator ∈ all)
    (formedLeft : left.WellFormed all) (formedRight : right.WellFormed all) :
    (operationOf left operator.span right connective).WellFormed all := by
  cases connective <;> exact ⟨⟨level, operator, member, rfl, sign⟩, formedLeft, formedRight⟩

theorem wellFormed_getD {condition : Option Expr} {semicolon : Token}
    (ends : semicolon.kind = .symbol .semicolon) (member : semicolon ∈ all)
    (formed : ∀ found ∈ condition, found.WellFormed all) :
    (condition.getD (.literal (.boolean true) semicolon.span)).WellFormed all := by
  cases condition with
  | none => exact ⟨semicolon, member, rfl, .inr ⟨ends, rfl⟩⟩
  | some found => exact formed found rfl

theorem wellFormed_meaningOfFor {start : Option Stmt} {condition : Expr}
    {increment : Option Expr} {body : Stmt} (span : Span)
    (formedStart : ∀ stmt ∈ start, stmt.WellFormed all)
    (formedCondition : condition.WellFormed all)
    (formedIncrement : wellFormedOptionalExpr all increment)
    (formedBody : body.WellFormed all ∧ body.declared? = none) :
    (meaningOfFor start condition increment body span).WellFormed all ∧
      (meaningOfFor start condition increment body span).declared? = none := by
  have formedLoop : (Stmt.loop condition body increment span).WellFormed all :=
    ⟨formedCondition, formedBody, formedIncrement⟩
  cases start with
  | none => exact ⟨formedLoop, rfl⟩
  | some first => exact ⟨⟨formedStart first rfl, formedLoop, trivial⟩, rfl⟩

theorem wellFormed_of_inheritance {tokens : List Token} {parent : Option Reference}
    (clause : Inheritance tokens parent) (within : tokens ⊆ all) :
    ∀ reference ∈ parent, reference.WellFormed all := by
  cases clause with
  | absent => simp
  | present mark parent less identifier =>
      intro reference member
      obtain rfl := Option.mem_some_iff.mp member
      exact ⟨rfl, parent, within (by simp), identifier, rfl⟩

/-- What tokens mean is as the grammar has it, over all tokens around them. -/
theorem Derives.wellFormed {phrase : Phrase} {tokens : List Token} {tree : phrase.Tree}
    (derives : Derives phrase tokens tree) (within : tokens ⊆ all) :
    WellFormed all phrase tree := by
  induction derives with
  | operation _ formed => exact formed within
  | assignVariable _ _ _ formedTarget formedValue =>
      simp only [List.append_subset, List.cons_subset] at within
      obtain ⟨_, identifier⟩ := formedTarget within.1
      exact ⟨⟨rfl, identifier⟩, formedValue within.2.2⟩
  | assignProperty _ _ _ formedTarget formedValue =>
      simp only [List.append_subset, List.cons_subset] at within
      obtain ⟨object, identifier⟩ := formedTarget within.1
      exact ⟨object, identifier, formedValue within.2.2⟩
  | tighter _ formed => exact formed within
  | joined _ sign _ formedLeft formedRight =>
      simp only [List.append_subset, List.cons_subset] at within
      exact wellFormed_operationOf sign within.2.1 (formedLeft within.1) (formedRight within.2.2)
  | prefixed sign _ formed =>
      rw [List.cons_subset] at within
      exact ⟨⟨_, within.1, rfl, sign⟩, formed within.2⟩
  | operand _ formed => exact formed within
  | primary _ formed => exact formed within
  | call _ _ _ _ formedCallee formedArguments =>
      simp only [List.append_subset, List.cons_subset] at within
      obtain ⟨short, formed⟩ := formedArguments within.2.2.1
      exact ⟨formedCallee within.1, short, wellFormedExprs_iff.mpr formed⟩
  | property _ _ identifier formed =>
      simp only [List.append_subset, List.cons_subset] at within
      exact ⟨formed within.1, _, within.2.2.1, identifier, rfl⟩
  | constant sign => exact ⟨_, within (.head _), rfl, .inl sign⟩
  | reference identifier => exact ⟨rfl, _, within (.head _), identifier, rfl⟩
  | this _ => rfl
  | super _ _ identifier =>
      simp only [List.cons_subset] at within
      exact ⟨rfl, _, within.2.2.1, identifier, rfl⟩
  | grouping _ _ _ formed =>
      simp only [List.append_subset, List.cons_subset] at within
      exact formed within.2.1
  | lambda sign _ formed =>
      rw [List.cons_subset] at within
      exact ⟨⟨_, within.1, sign, rfl⟩, rfl, formed within.2⟩
  | parameter identifier => exact ⟨_, within (.head _), identifier, rfl⟩
  | function _ _ _ _ formedNames formedBody =>
      simp only [List.append_subset, List.cons_subset] at within
      exact ⟨formedNames within.2.1, formedBody within.2.2.2⟩
  | body _ _ _ formed =>
      simp only [List.append_subset, List.cons_subset] at within
      exact wellFormedStmts_iff.mpr (formed within.2.1)
  | method identifier _ formed =>
      rw [List.cons_subset] at within
      exact ⟨⟨⟨_, within.1, identifier, rfl⟩, nofun, formed within.2⟩, trivial⟩
  | getter identifier _ formed =>
      rw [List.cons_subset] at within
      have noParameters : ([] : List Name).length ≤ 255 ∧
          ∀ name ∈ ([] : List Name), name.IsIdentifier all := ⟨Nat.zero_le _, nofun⟩
      exact ⟨⟨⟨_, within.1, identifier, rfl⟩, fun _ => rfl, noParameters, formed within.2⟩,
        trivial⟩
  | noInitializer => trivial
  | initializer _ _ formed => exact formed (List.cons_subset.mp within).2
  | varDeclaration _ identifier _ _ formed =>
      simp only [List.append_subset, List.cons_subset] at within
      exact ⟨⟨_, within.2.1, identifier, rfl⟩, formed within.2.2.1⟩
  | ofVariable _ formed => exact formed within
  | ofFunction _ identifier _ formed =>
      simp only [List.cons_subset] at within
      exact ⟨⟨_, within.2.1, identifier, rfl⟩, rfl, formed within.2.2⟩
  | ofClass _ identifier clause _ _ _ formed =>
      simp only [List.append_subset, List.cons_subset] at within
      refine ⟨⟨_, within.2.1, identifier, rfl⟩,
        wellFormed_of_inheritance clause within.2.2.1, wellFormedMethods_iff.mpr ?_⟩
      exact fun method member => (formed within.2.2.2.2.1 method member).1
  | ofStatement _ formed => exact (formed within).1
  | expressionStatement _ _ formed =>
      simp only [List.append_subset, List.cons_subset] at within
      exact ⟨formed (List.cons_subset.mpr ⟨within.1, within.2.1⟩), rfl⟩
  | ofExpression _ formed => exact formed within
  | print _ _ _ formed =>
      simp only [List.append_subset, List.cons_subset] at within
      exact ⟨formed within.2.1, rfl⟩
  | «return» _ _ _ formed =>
      simp only [List.append_subset, List.cons_subset] at within
      exact ⟨wellFormedOptionalExpr_iff.mpr (formed within.2.1), rfl⟩
  | «break» _ _ => exact ⟨trivial, rfl⟩
  | «continue» _ _ => exact ⟨trivial, rfl⟩
  | block _ formed => exact ⟨formed within, rfl⟩
  | conditional _ _ _ _ _ formedTest formedBranch =>
      simp only [List.append_subset, List.cons_subset] at within
      exact ⟨⟨formedTest within.2.2.1, formedBranch within.2.2.2.2, trivial⟩, rfl⟩
  | conditionalElse _ _ _ _ _ _ _ formedTest formedBranch formedOther =>
      simp only [List.append_subset, List.cons_subset] at within
      exact ⟨⟨formedTest within.2.2.1, formedBranch within.2.2.2.2.1,
        formedOther within.2.2.2.2.2.2⟩, rfl⟩
  | whileLoop _ _ _ _ _ formedTest formedBody =>
      simp only [List.append_subset, List.cons_subset] at within
      exact ⟨⟨formedTest within.2.2.1, formedBody within.2.2.2.2, trivial⟩, rfl⟩
  | startAbsent _ => simp [WellFormed]
  | startVariable _ formed =>
      intro stmt member
      obtain rfl := Option.mem_some_iff.mp member
      exact formed within
  | startExpression _ formed =>
      intro stmt member
      obtain rfl := Option.mem_some_iff.mp member
      exact (formed within).1
  | forLoop _ _ _ _ ends _ _ _ formedStart formedTest formedStep formedBody =>
      simp only [List.append_subset, List.cons_subset] at within
      obtain ⟨_, _, withinStart, withinTest, member, withinStep, _, withinBody⟩ := within
      exact wellFormed_meaningOfFor _ (formedStart withinStart)
        (wellFormed_getD ends member (formedTest withinTest))
        (wellFormedOptionalExpr_iff.mpr (formedStep withinStep)) (formedBody withinBody)
  | none => simp [WellFormed]
  | some _ formed =>
      intro found member
      obtain rfl := Option.mem_some_iff.mp member
      exact formed within
  | done => simp [WellFormed]
  | again _ _ formedFirst formedOthers =>
      rw [List.append_subset] at within
      exact List.forall_mem_cons.mpr ⟨formedFirst within.1, formedOthers within.2⟩
  | last _ formed => exact List.forall_mem_singleton.mpr (formed within)
  | comma _ _ _ formedFirst formedOthers =>
      simp only [List.append_subset, List.cons_subset] at within
      exact List.forall_mem_cons.mpr ⟨formedFirst within.1, formedOthers within.2.2⟩
  | empty => simp [WellFormed]
  | list _ short formed => exact ⟨short, formed within⟩

end Grammar

/-- Every program that is read is well formed over its tokens. -/
theorem Program.wellFormed_of_ofTokens {tokens : List Token} {program : Program}
    (read : Program.ofTokens tokens = .ok program) : wellFormedStmts tokens program.statements :=
  wellFormedStmts_iff.mpr
    ((Program.derives_of_ofTokens read).wellFormed fun _ member => Text.mem_of_mem member)

/-- Every bare expression that is read is well formed over its tokens. -/
theorem Expr.wellFormed_of_ofTokens {tokens : List Token} {expr : Expr}
    (read : Expr.ofTokens tokens = .ok expr) : expr.WellFormed tokens :=
  (Expr.derives_of_ofTokens read).wellFormed fun _ member => Text.mem_of_mem member

end Lox
