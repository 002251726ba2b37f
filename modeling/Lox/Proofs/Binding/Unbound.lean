import Lox.Proofs.Grammar.Exactness
import Lox.Proofs.Lexeme.Covered
import Lox.Session

/-!
Contract: trees as they are read.

A tree that was read from a source is `Unbound`: it holds no address, no name in it
is spelled like a reserved word, no branch and no loop body is a declaration, and no
getter has parameters. All of it comes from the grammar, and from the scanner, which
finds an identifier only where no reserved word stands.

Owns: `Unbound`, and that programs and bare expressions are read so.
-/

set_option autoImplicit false

namespace Lox

/-! ## Names -/

/-- No reserved word is spelled so. -/
def Plain (text : String) : Prop := Keyword.ofText? text = none

instance (text : String) : Decidable (Plain text) :=
  inferInstanceAs (Decidable (Keyword.ofText? text = none))

theorem Plain.ne_text {text : String} (plain : Plain text) (word : Keyword) :
    text ≠ word.text := by
  intro same
  rw [Plain, same, Keyword.ofText?_text] at plain
  cases plain

/-- An identifier is a word that is not reserved, and takes the whole word. -/
theorem Lexeme.plain_of_word {first : Char} {rest : List Char}
    (identifier : (Lexeme.word first rest).outcome = .ok .identifier) :
    Plain (String.ofList (first :: rest.take (Lexeme.word first rest).extent)) := by
  simp only [Lexeme.word] at identifier ⊢
  split at identifier
  · cases identifier
  · next free =>
      simp only [Lexeme.plain, Lexeme.take_length_takeWhile]
      exact free

theorem Lexeme.not_identifier_of_comment (body : List Char) :
    (Lexeme.blockComment body).outcome ≠ .ok .identifier := by
  unfold Lexeme.blockComment
  split <;> simp

theorem Lexeme.not_identifier_of_quotation (body : List Char) :
    (Lexeme.quotation body).outcome ≠ .ok .identifier := by
  simp only [Lexeme.quotation]
  split <;> simp

theorem Lexeme.not_identifier_of_withEqual (alone joined : Symbol) (rest : List Char) :
    (Lexeme.withEqual alone joined rest).outcome ≠ .ok .identifier := by
  unfold Lexeme.withEqual
  split <;> simp [Lexeme.plain, Lexeme.single]

/-- Only words are identifiers. -/
theorem Lexeme.at_eq_word {first : Char} {rest : List Char}
    (identifier : (Lexeme.at first rest).outcome = .ok .identifier) :
    Lexeme.at first rest = Lexeme.word first rest := by
  revert identifier
  unfold Lexeme.at
  split
  iterate 10
    · intro identifier
      cases identifier
  iterate 4
    · intro identifier
      exact absurd identifier (Lexeme.not_identifier_of_withEqual _ _ _)
  · split
    · intro identifier
      cases identifier
    · intro identifier
      exact absurd identifier (Lexeme.not_identifier_of_comment _)
    · intro identifier
      cases identifier
  · intro identifier
    exact absurd identifier (Lexeme.not_identifier_of_quotation _)
  · split
    · intro identifier
      cases identifier
    · split
      · intro _
        rfl
      · intro identifier
        cases identifier

/-- An item of a stream that is an identifier is spelled like no reserved word. -/
theorem Stream.plain_of_next? {stream following : Stream} {token : Token}
    (found : stream.next? = some (.ok token, following)) (identifier : token.kind = .identifier) :
    Plain token.lexeme := by
  unfold Stream.next? at found
  split at found
  · split at found
    · cases found
    · obtain ⟨same, _⟩ := Prod.mk.inj (Option.some.inj found)
      obtain rfl := Except.ok.inj same
      cases identifier
  · next position first rest _ =>
      obtain ⟨same, _⟩ := Prod.mk.inj (Option.some.inj found)
      unfold Stream.itemOf at same
      split at same
      · next kind outcome =>
          obtain rfl := Except.ok.inj same
          have isWord : (Lexeme.at first rest).outcome = .ok .identifier := by
            rw [outcome]
            exact congrArg Except.ok identifier
          have ofWord := Lexeme.at_eq_word isWord
          rw [ofWord] at isWord ⊢
          exact Lexeme.plain_of_word isWord
      · cases same

theorem Stream.plain_of_mem_take (bound : Nat) {stream : Stream} {token : Token}
    (member : (.ok token : Item) ∈ stream.take bound) (identifier : token.kind = .identifier) :
    Plain token.lexeme := by
  induction bound generalizing stream with
  | zero => cases member
  | succ bound inductionHypothesis =>
      unfold Stream.take at member
      split at member
      · cases member
      · next item following found =>
          obtain rfl | member := List.mem_cons.mp member
          · exact Stream.plain_of_next? found identifier
          · exact inductionHypothesis member

/-- Identifiers of a source are spelled like no reserved word. -/
theorem Scan.plain_of_identifier {source : String} {token : Token}
    (member : token ∈ (Scan.of source).tokens) (identifier : token.kind = .identifier) :
    Plain token.lexeme := by
  obtain ⟨item, present, same⟩ := List.mem_filterMap.mp member
  cases item with
  | error => cases same
  | ok found =>
      obtain rfl := Option.some.inj same
      exact Stream.plain_of_mem_take _ present identifier

/-! ## Trees -/

/-- The name that a statement declares, if it is a declaration. -/
def Stmt.declared? : Stmt → Option String
  | .var name _ _ => some name.text
  | .function declaration _ => some declaration.name.text
  | .class name _ _ _ => some name.text
  | _ => none

/-- A use of a variable that was not bound yet. -/
def Reference.Unbound (reference : Reference) : Prop :=
  reference.address = none ∧ Plain reference.name.text

mutual

/-- The expression is as it was read. -/
def Expr.Unbound : Expr → Prop
  | .literal _ _ => True
  | .grouping inner _ => inner.Unbound
  | .variable reference => reference.Unbound
  | .assign target value _ => target.Unbound ∧ value.Unbound
  | .unary _ operand _ => operand.Unbound
  | .binary _ left right _ => left.Unbound ∧ right.Unbound
  | .logical _ left right _ => left.Unbound ∧ right.Unbound
  | .call callee arguments _ => callee.Unbound ∧ unboundExprs arguments
  | .get object _ => object.Unbound
  | .set object _ value _ => object.Unbound ∧ value.Unbound
  | .this address _ => address = none
  | .super address _ _ => address = none
  | .lambda function => unboundFunction function

/-- The expressions are as they were read. -/
def unboundExprs : List Expr → Prop
  | [] => True
  | expr :: rest => expr.Unbound ∧ unboundExprs rest

/-- The expression, if there is one, is as it was read. -/
def unboundOptionalExpr : Option Expr → Prop
  | none => True
  | some expr => expr.Unbound

/-- The statement is as it was read. -/
def Stmt.Unbound : Stmt → Prop
  | .expression value _ => value.Unbound
  | .print value _ => value.Unbound
  | .var name initializer _ => Plain name.text ∧ unboundOptionalExpr initializer
  | .block statements _ => unboundStmts statements
  | .conditional condition thenBranch elseBranch _ =>
      condition.Unbound ∧ (thenBranch.Unbound ∧ thenBranch.declared? = none) ∧
        unboundBranch elseBranch
  | .loop condition body increment _ =>
      condition.Unbound ∧ (body.Unbound ∧ body.declared? = none) ∧ unboundOptionalExpr increment
  | .function declaration _ => Plain declaration.name.text ∧ unboundFunction declaration
  | .return value _ => unboundOptionalExpr value
  | .class name superclass methods _ =>
      Plain name.text ∧ (∀ reference ∈ superclass, reference.Unbound) ∧ unboundFunctions methods
  | .break _ => True
  | .continue _ => True

/-- The branch, if there is one, is as it was read. -/
def unboundBranch : Option Stmt → Prop
  | none => True
  | some branch => branch.Unbound ∧ branch.declared? = none

/-- The statements are as they were read. -/
def unboundStmts : List Stmt → Prop
  | [] => True
  | stmt :: rest => stmt.Unbound ∧ unboundStmts rest

/-- The function is as it was read. -/
def unboundFunction : FunctionDeclaration → Prop
  | ⟨_, parameters, body, isGetter⟩ =>
      (∀ parameter ∈ parameters, Plain parameter.text) ∧ (isGetter = true → parameters = []) ∧
        unboundStmts body

/-- The functions are as they were read. -/
def unboundFunctions : List FunctionDeclaration → Prop
  | [] => True
  | function :: rest => unboundFunction function ∧ unboundFunctions rest

end

/-! ## Derivations -/

namespace Grammar

/-- What a phrase means is a tree as it was read. -/
def Unbound : (phrase : Phrase) → phrase.Tree → Prop
  | .expression, tree | .operation _, tree | .call, tree | .primary, tree => Expr.Unbound tree
  | .parameter, tree => Plain (Name.text tree)
  | .function, tree =>
      (∀ parameter ∈ Prod.fst tree, Plain parameter.text) ∧ unboundStmts (Prod.snd tree)
  | .body, trees => unboundStmts trees
  | .method, tree => unboundFunction tree
  | .initializer, tree => unboundOptionalExpr tree
  | .varDeclaration, tree | .declaration, tree => Stmt.Unbound tree
  | .expressionStatement, tree | .statement _, tree =>
      Stmt.Unbound tree ∧ Stmt.declared? tree = none
  | .forStart, tree => ∀ stmt ∈ (show Option Stmt from tree), Stmt.Unbound stmt
  | .optional item, tree => ∀ found ∈ (show Option item.Tree from tree), Unbound item found
  | .repeated item, trees | .separated item, trees | .list item, trees =>
      ∀ tree ∈ (show List item.Tree from trees), Unbound item tree

/-- The identifiers among the tokens are spelled like no reserved word. -/
def PlainTokens (tokens : List Token) : Prop :=
  ∀ token ∈ tokens, token.kind = .identifier → Plain token.lexeme

theorem plainTokens_cons {token : Token} {tokens : List Token} :
    PlainTokens (token :: tokens) ↔
      (token.kind = .identifier → Plain token.lexeme) ∧ PlainTokens tokens := by
  simp [PlainTokens]

theorem plainTokens_append {left right : List Token} :
    PlainTokens (left ++ right) ↔ PlainTokens left ∧ PlainTokens right := by
  simp only [PlainTokens, List.mem_append, or_imp, forall_and]

theorem unboundExprs_of_forall {exprs : List Expr} (unbound : ∀ expr ∈ exprs, expr.Unbound) :
    unboundExprs exprs := by
  induction exprs with
  | nil => trivial
  | cons expr rest inductionHypothesis =>
      exact ⟨unbound expr (.head rest),
        inductionHypothesis fun other member => unbound other (.tail expr member)⟩

theorem unboundStmts_of_forall {stmts : List Stmt} (unbound : ∀ stmt ∈ stmts, stmt.Unbound) :
    unboundStmts stmts := by
  induction stmts with
  | nil => trivial
  | cons stmt rest inductionHypothesis =>
      exact ⟨unbound stmt (.head rest),
        inductionHypothesis fun other member => unbound other (.tail stmt member)⟩

theorem unboundFunctions_of_forall {functions : List FunctionDeclaration}
    (unbound : ∀ function ∈ functions, unboundFunction function) :
    unboundFunctions functions := by
  induction functions with
  | nil => trivial
  | cons function rest inductionHypothesis =>
      exact ⟨unbound function (.head rest),
        inductionHypothesis fun other member => unbound other (.tail function member)⟩

theorem unboundOptionalExpr_of_forall {expr : Option Expr}
    (unbound : ∀ found ∈ expr, found.Unbound) : unboundOptionalExpr expr := by
  cases expr with
  | none => trivial
  | some found => exact unbound found rfl

theorem unbound_getD {condition : Option Expr} (value : Literal) (span : Span)
    (unbound : ∀ found ∈ condition, found.Unbound) :
    (condition.getD (.literal value span)).Unbound := by
  cases condition with
  | none => trivial
  | some found => exact unbound found rfl

theorem unbound_meaningOfFor {start : Option Stmt} {condition : Expr} {increment : Option Expr}
    {body : Stmt} (span : Span) (unboundStart : ∀ stmt ∈ start, stmt.Unbound)
    (unboundCondition : condition.Unbound) (unboundIncrement : unboundOptionalExpr increment)
    (unboundBody : body.Unbound ∧ body.declared? = none) :
    (meaningOfFor start condition increment body span).Unbound ∧
      (meaningOfFor start condition increment body span).declared? = none := by
  have unboundLoop : (Stmt.loop condition body increment span).Unbound :=
    ⟨unboundCondition, unboundBody, unboundIncrement⟩
  cases start with
  | none => exact ⟨unboundLoop, rfl⟩
  | some first => exact ⟨⟨unboundStart first rfl, unboundLoop, trivial⟩, rfl⟩

theorem unbound_operationOf {left right : Expr} (span : Span) (connective : Connective)
    (unboundLeft : left.Unbound) (unboundRight : right.Unbound) :
    (operationOf left span right connective).Unbound := by
  cases connective <;> exact ⟨unboundLeft, unboundRight⟩

theorem unbound_of_inheritance {tokens : List Token} {parent : Option Reference}
    (clause : Inheritance tokens parent) (plain : PlainTokens tokens) :
    ∀ reference ∈ parent, reference.Unbound := by
  cases clause with
  | absent => simp
  | present mark parent less identifier =>
      intro reference member
      obtain rfl := Option.mem_some_iff.mp member
      exact ⟨rfl, plain parent (by simp) identifier⟩

/-- What tokens mean is a tree as it was read. -/
theorem Derives.unbound {phrase : Phrase} {tokens : List Token} {tree : phrase.Tree}
    (derives : Derives phrase tokens tree) (plain : PlainTokens tokens) :
    Unbound phrase tree := by
  induction derives with
  | operation _ unbound => exact unbound plain
  | assignVariable _ _ _ unboundTarget unboundValue =>
      rw [plainTokens_append, plainTokens_cons] at plain
      obtain ⟨_, plainName⟩ := unboundTarget plain.1
      exact ⟨⟨rfl, plainName⟩, unboundValue plain.2.2⟩
  | assignProperty _ _ _ unboundTarget unboundValue =>
      rw [plainTokens_append, plainTokens_cons] at plain
      exact ⟨unboundTarget plain.1, unboundValue plain.2.2⟩
  | tighter _ unbound => exact unbound plain
  | joined _ _ _ unboundLeft unboundRight =>
      rw [plainTokens_append, plainTokens_cons] at plain
      exact unbound_operationOf _ _ (unboundLeft plain.1) (unboundRight plain.2.2)
  | prefixed _ _ unbound => exact unbound (plainTokens_cons.mp plain).2
  | operand _ unbound => exact unbound plain
  | primary _ unbound => exact unbound plain
  | call _ _ _ _ unboundCallee unboundArguments =>
      rw [plainTokens_append, plainTokens_cons, plainTokens_append] at plain
      exact ⟨unboundCallee plain.1, unboundExprs_of_forall (unboundArguments plain.2.2.1)⟩
  | property _ _ _ unbound => exact unbound (plainTokens_append.mp plain).1
  | constant _ => trivial
  | reference identifier => exact ⟨rfl, (plainTokens_cons.mp plain).1 identifier⟩
  | this _ => rfl
  | super _ _ _ => rfl
  | grouping _ _ _ unbound =>
      rw [plainTokens_cons, plainTokens_append] at plain
      exact unbound plain.2.1
  | lambda _ _ unbound =>
      obtain ⟨plainParameters, unboundBody⟩ := unbound (plainTokens_cons.mp plain).2
      exact ⟨plainParameters, by simp, unboundBody⟩
  | parameter identifier => exact (plainTokens_cons.mp plain).1 identifier
  | function _ _ _ _ unboundNames unboundBody =>
      rw [plainTokens_cons, plainTokens_append, plainTokens_cons] at plain
      exact ⟨unboundNames plain.2.1, unboundBody plain.2.2.2⟩
  | body _ _ _ unbound =>
      rw [plainTokens_cons, plainTokens_append] at plain
      exact unboundStmts_of_forall (unbound plain.2.1)
  | method _ _ unbound =>
      obtain ⟨plainParameters, unboundBody⟩ := unbound (plainTokens_cons.mp plain).2
      exact ⟨plainParameters, by simp, unboundBody⟩
  | getter _ _ unbound => exact ⟨by simp, by simp, unbound (plainTokens_cons.mp plain).2⟩
  | noInitializer => trivial
  | initializer _ _ unbound => exact unbound (plainTokens_cons.mp plain).2
  | varDeclaration _ identifier _ _ unbound =>
      rw [plainTokens_cons, plainTokens_cons, plainTokens_append] at plain
      exact ⟨plain.2.1 identifier, unbound plain.2.2.1⟩
  | ofVariable _ unbound => exact unbound plain
  | ofFunction _ identifier _ unbound =>
      rw [plainTokens_cons, plainTokens_cons] at plain
      obtain ⟨plainParameters, unboundBody⟩ := unbound plain.2.2
      exact ⟨plain.2.1 identifier, plainParameters, by simp, unboundBody⟩
  | ofClass _ identifier clause _ _ _ unbound =>
      rw [plainTokens_cons, plainTokens_cons, plainTokens_append, plainTokens_cons,
        plainTokens_append] at plain
      exact ⟨plain.2.1 identifier, unbound_of_inheritance clause plain.2.2.1,
        unboundFunctions_of_forall (unbound plain.2.2.2.2.1)⟩
  | ofStatement _ unbound => exact (unbound plain).1
  | expressionStatement _ _ unbound =>
      rw [plainTokens_cons, plainTokens_append] at plain
      exact ⟨unbound (plainTokens_cons.mpr ⟨plain.1, plain.2.1⟩), rfl⟩
  | ofExpression _ unbound => exact unbound plain
  | print _ _ _ unbound =>
      rw [plainTokens_cons, plainTokens_append] at plain
      exact ⟨unbound plain.2.1, rfl⟩
  | «return» _ _ _ unbound =>
      rw [plainTokens_cons, plainTokens_append] at plain
      exact ⟨unboundOptionalExpr_of_forall (unbound plain.2.1), rfl⟩
  | «break» _ _ => exact ⟨trivial, rfl⟩
  | «continue» _ _ => exact ⟨trivial, rfl⟩
  | block _ unbound => exact ⟨unbound plain, rfl⟩
  | conditional _ _ _ _ _ unboundTest unboundBranch =>
      rw [plainTokens_cons, plainTokens_cons, plainTokens_append, plainTokens_cons] at plain
      exact ⟨⟨unboundTest plain.2.2.1, unboundBranch plain.2.2.2.2, trivial⟩, rfl⟩
  | conditionalElse _ _ _ _ _ _ _ unboundTest unboundBranch unboundOther =>
      rw [plainTokens_cons, plainTokens_cons, plainTokens_append, plainTokens_cons,
        plainTokens_append, plainTokens_cons] at plain
      exact ⟨⟨unboundTest plain.2.2.1, unboundBranch plain.2.2.2.2.1,
        unboundOther plain.2.2.2.2.2.2⟩, rfl⟩
  | whileLoop _ _ _ _ _ unboundTest unboundBody =>
      rw [plainTokens_cons, plainTokens_cons, plainTokens_append, plainTokens_cons] at plain
      exact ⟨⟨unboundTest plain.2.2.1, unboundBody plain.2.2.2.2, trivial⟩, rfl⟩
  | startAbsent _ => simp [Unbound]
  | startVariable _ unbound =>
      intro stmt member
      obtain rfl := Option.mem_some_iff.mp member
      exact unbound plain
  | startExpression _ unbound =>
      intro stmt member
      obtain rfl := Option.mem_some_iff.mp member
      exact (unbound plain).1
  | forLoop _ _ _ _ _ _ _ _ unboundStart unboundTest unboundStep unboundBody =>
      rw [plainTokens_cons, plainTokens_cons, plainTokens_append, plainTokens_append,
        plainTokens_cons, plainTokens_append, plainTokens_cons] at plain
      obtain ⟨_, _, plainStart, plainTest, _, plainStep, _, plainBody⟩ := plain
      exact unbound_meaningOfFor _ (unboundStart plainStart)
        (unbound_getD _ _ (unboundTest plainTest))
        (unboundOptionalExpr_of_forall (unboundStep plainStep)) (unboundBody plainBody)
  | none => simp [Unbound]
  | some _ unbound =>
      intro found member
      obtain rfl := Option.mem_some_iff.mp member
      exact unbound plain
  | done => simp [Unbound]
  | again _ _ unboundFirst unboundOthers =>
      rw [plainTokens_append] at plain
      exact List.forall_mem_cons.mpr ⟨unboundFirst plain.1, unboundOthers plain.2⟩
  | last _ unbound => exact List.forall_mem_singleton.mpr (unbound plain)
  | comma _ _ _ unboundFirst unboundOthers =>
      rw [plainTokens_append, plainTokens_cons] at plain
      exact List.forall_mem_cons.mpr ⟨unboundFirst plain.1, unboundOthers plain.2.2⟩
  | empty => simp [Unbound]
  | list _ _ unbound => exact unbound plain

theorem Text.mem_of_mem {token : Token} {tokens : List Token}
    (member : token ∈ (Text.of tokens).tokens) : token ∈ tokens :=
  (List.mem_filter.mp ((List.takeWhile_sublist _).subset member)).1

theorem plainTokens_of_scan (source : String) :
    PlainTokens (Text.of (Scan.of source).tokens).tokens :=
  fun _ member identifier => Scan.plain_of_identifier (Text.mem_of_mem member) identifier

end Grammar

open Grammar

/-! ## Sources -/

/-- A program is read as a tree without addresses. -/
theorem ParsedSource.unbound {source : String} {program : Program}
    (read : (ParsedSource.of source).program = some program) :
    unboundStmts program.statements := by
  simp only [ParsedSource.of] at read
  split at read
  · next found accepted =>
      have derives := Program.derives_of_ofTokens accepted
      have unbound := unboundStmts_of_forall (derives.unbound (plainTokens_of_scan source))
      split at read
      · rw [← Option.some.inj read]
        exact unbound
      · cases read
  · cases read

/-- A bare expression is an expression of the tokens, if there are no lexical errors. -/
theorem bareExpression?_eq_some_iff {source : String} {expr : Expr} :
    bareExpression? source = some expr ↔
      (Scan.of source).errors = [] ∧ Expr.ofTokens (Scan.of source).tokens = .ok expr := by
  simp only [bareExpression?]
  cases (Scan.of source).errors with
  | nil => cases Expr.ofTokens (Scan.of source).tokens <;> simp [Except.toOption]
  | cons error others => simp

/-- A bare expression is read as a tree without addresses. -/
theorem unbound_of_bareExpression? {source : String} {expr : Expr}
    (read : bareExpression? source = some expr) : expr.Unbound :=
  (Expr.derives_of_ofTokens (bareExpression?_eq_some_iff.mp read).2).unbound
    (plainTokens_of_scan source)

end Lox
