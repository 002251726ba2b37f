import Lox.Grammar.Construct
import Lox.Proofs.Grammar.Beginning
import Lox.Proofs.Grammar.Soundness.Expression

/-!
Contract: what is read as a statement or a declaration is derivable.

Main statement: `constructs_sound`, by induction on the bound of nested constructs:
whatever one of the four mutually nested parsers reads is a phrase of its sort. A
statement that is read leaves no `else` behind that belongs to it.

Owns: soundness of every rule for statements, and the induction over the nesting.
-/

set_option autoImplicit false

namespace Lox.Grammar

open Lox.Parser

/-- Whatever the parser reads is a statement, and no `else` that belongs to it is
left behind. -/
def SoundStatement (parser : Parser Stmt) : Prop :=
  ∀ ⦃tokens rest : List Token⦄ ⦃tree : Stmt⦄, parser.Reads tokens tree rest →
    ∃ consumed dangling, tokens = consumed ++ rest ∧
      Derives (.statement dangling) consumed tree ∧
      (dangling = true → Avoids (·.isKeyword .else) rest)

/-- A statement that is not dangling. -/
theorem closed_sound {consumed rest : List Token} {tree : Stmt}
    (derives : Derives (.statement false) consumed tree) :
    ∃ taken dangling, consumed ++ rest = taken ++ rest ∧
      Derives (.statement dangling) taken tree ∧
      (dangling = true → Avoids (·.isKeyword .else) rest) :=
  ⟨consumed, false, rfl, derives, by simp⟩

section Statements

variable {expression : Parser Expr} {statement declaration : Parser Stmt}

/-! ## Statements without branches -/

theorem expressionStatement_sound (sound : Sound .expression expression) :
    Sound .expressionStatement (expressionStatement expression) := by
  intro tokens rest tree reads
  simp only [expressionStatement, semicolon, reads_bind, reads_nextSpan, reads_symbol,
    reads_pure] at reads
  obtain ⟨_, _, ⟨rfl, rfl⟩, value, _, readsValue, closing, _, ⟨rfl, ends⟩, rfl, rfl⟩ := reads
  obtain ⟨consumed, rfl, derives⟩ := sound readsValue
  obtain ⟨first, others, rfl, _⟩ := derives.begins
  exact ⟨first :: (others ++ [closing]), by simp, .expressionStatement derives ends⟩

theorem printStatement_sound (sound : Sound .expression expression) {word : Token}
    {tokens rest : List Token} {tree : Stmt} (sign : word.kind = .keyword .print)
    (reads : (printStatement expression).Reads (word :: tokens) tree rest) :
    ∃ consumed, word :: tokens = consumed ++ rest ∧ Derives (.statement false) consumed tree := by
  simp only [printStatement, semicolon, reads_bind, reads_skip, reads_symbol, reads_pure] at reads
  obtain ⟨_, _, ⟨rfl, rfl⟩, value, _, readsValue, closing, _, ⟨rfl, ends⟩, rfl, rfl⟩ := reads
  obtain ⟨between, rfl, derives⟩ := sound readsValue
  exact ⟨word :: (between ++ [closing]), by simp, .print sign derives ends⟩

theorem jumpStatement_sound (jump : Keyword) (node : Span → Stmt) {word : Token}
    {tokens rest : List Token} {tree : Stmt}
    (reads : (jumpStatement jump node).Reads (word :: tokens) tree rest) :
    ∃ closing, tokens = closing :: rest ∧ closing.kind = .symbol .semicolon ∧
      tree = node word.span := by
  simp only [jumpStatement, semicolon, reads_bind, reads_skip, reads_symbol, reads_pure] at reads
  obtain ⟨_, _, ⟨rfl, rfl⟩, closing, _, ⟨rfl, ends⟩, rfl, rfl⟩ := reads
  exact ⟨closing, rfl, ends, rfl⟩

theorem returnStatement_sound (sound : Sound .expression expression) {word : Token}
    {tokens rest : List Token} {tree : Stmt} (sign : word.kind = .keyword .return)
    (reads : (returnStatement expression).Reads (word :: tokens) tree rest) :
    ∃ consumed, word :: tokens = consumed ++ rest ∧ Derives (.statement false) consumed tree := by
  simp only [returnStatement, semicolon, reads_bind, reads_skip, reads_sees] at reads
  obtain ⟨_, _, ⟨rfl, rfl⟩, seen, _, ⟨rfl, rfl⟩, reads⟩ := reads
  split at reads
  · simp only [reads_bind, reads_pure, reads_symbol] at reads
    obtain ⟨_, _, ⟨rfl, rfl⟩, closing, _, ⟨rfl, ends⟩, rfl, rfl⟩ := reads
    exact ⟨[word, closing], by simp, .return sign (.none .expression) ends⟩
  · simp only [reads_bind, reads_map, reads_pure, reads_symbol] at reads
    obtain ⟨_, _, ⟨value, readsValue, rfl⟩, closing, _, ⟨rfl, ends⟩, rfl, rfl⟩ := reads
    obtain ⟨between, rfl, derives⟩ := sound readsValue
    exact ⟨word :: (between ++ [closing]), by simp, .return sign (.some derives) ends⟩

theorem blockStatement_sound (sound : Sound .declaration declaration) (bound : Nat) {word : Token}
    {tokens rest : List Token} {tree : Stmt} (sign : word.kind = .symbol .leftBrace)
    (reads : (blockStatement declaration bound).Reads (word :: tokens) tree rest) :
    ∃ consumed, word :: tokens = consumed ++ rest ∧ Derives (.statement false) consumed tree := by
  simp only [blockStatement, blockRest, reads_bind, reads_skip, reads_symbol, reads_pure] at reads
  obtain ⟨_, _, ⟨rfl, rfl⟩, statements, _, ⟨_, _, readsItems, closing, _, ⟨rfl, closes⟩, rfl, rfl⟩,
    rfl, rfl⟩ := reads
  obtain ⟨between, rfl, derives⟩ := itemsUntil_sound _ sound bound readsItems
  exact ⟨word :: (between ++ [closing]), by simp, .block (.body sign derives closes)⟩

theorem varDeclaration_sound (sound : Sound .expression expression) {word : Token}
    {tokens rest : List Token} {tree : Stmt} (sign : word.kind = .keyword .var)
    (reads : (varDeclaration expression).Reads (word :: tokens) tree rest) :
    ∃ consumed, word :: tokens = consumed ++ rest ∧ Derives .varDeclaration consumed tree := by
  simp only [varDeclaration, semicolon, reads_bind, reads_skip, reads_name,
    reads_optionalSymbol] at reads
  obtain ⟨_, _, ⟨rfl, rfl⟩, _, _, ⟨name, rfl, identifier, rfl⟩, sign', after,
    (⟨equals, rfl, isEqual, rfl⟩ | ⟨_, rfl, rfl⟩), reads⟩ := reads
  · simp only [reads_bind, reads_map, reads_pure, reads_symbol] at reads
    obtain ⟨_, _, ⟨value, readsValue, rfl⟩, closing, _, ⟨rfl, ends⟩, rfl, rfl⟩ := reads
    obtain ⟨between, rfl, derives⟩ := sound readsValue
    exact ⟨word :: name :: (equals :: between ++ [closing]), by simp,
      .varDeclaration sign identifier (.initializer isEqual derives) ends⟩
  · simp only [reads_bind, reads_pure, reads_symbol] at reads
    obtain ⟨_, _, ⟨rfl, rfl⟩, closing, _, ⟨rfl, ends⟩, rfl, rfl⟩ := reads
    exact ⟨[word, name, closing], by simp, .varDeclaration sign identifier .noInitializer ends⟩

/-! ## Branches and loops -/

theorem ifStatement_sound (soundExpression : Sound .expression expression)
    (soundStatement : SoundStatement statement) {word : Token} {tokens rest : List Token}
    {tree : Stmt} (sign : word.kind = .keyword .if)
    (reads : (ifStatement expression statement).Reads (word :: tokens) tree rest) :
    ∃ consumed dangling, word :: tokens = consumed ++ rest ∧
      Derives (.statement dangling) consumed tree ∧
      (dangling = true → Avoids (·.isKeyword .else) rest) := by
  simp only [ifStatement, reads_bind, reads_skip, reads_symbol, reads_optional,
    isKeyword_iff] at reads
  obtain ⟨_, _, ⟨rfl, rfl⟩, opening, _, ⟨rfl, opens⟩, condition, _, readsCondition, closing, _,
    ⟨rfl, closes⟩, branch, _, readsBranch, mark, after, found, reads⟩ := reads
  obtain ⟨between, rfl, derivesCondition⟩ := soundExpression readsCondition
  obtain ⟨chosen, dangling, rfl, derivesBranch, closed⟩ := soundStatement readsBranch
  obtain (⟨token, rfl, isElse, rfl⟩ | ⟨noElse, rfl, rfl⟩) := found
  · simp only [reads_bind, reads_map, reads_pure] at reads
    obtain ⟨_, _, ⟨otherwise, readsOther, rfl⟩, rfl, rfl⟩ := reads
    obtain ⟨other, dangling', rfl, derivesOther, closed'⟩ := soundStatement readsOther
    -- The `else` was left for this `if`, so the branch before it is not dangling.
    obtain rfl : dangling = false := by
      cases dangling with
      | false => rfl
      | true => simp [isElse, Token.Kind.isKeyword] at closed
    exact ⟨word :: opening :: (between ++ closing :: (chosen ++ token :: other)), dangling',
      by simp, .conditionalElse sign opens derivesCondition closes derivesBranch isElse derivesOther,
      closed'⟩
  · simp only [reads_bind, reads_pure] at reads
    obtain ⟨_, _, ⟨rfl, rfl⟩, rfl, rfl⟩ := reads
    exact ⟨word :: opening :: (between ++ closing :: chosen), true, by simp,
      .conditional sign opens derivesCondition closes derivesBranch, fun _ => noElse⟩

theorem whileStatement_sound (soundExpression : Sound .expression expression)
    (soundStatement : SoundStatement statement) {word : Token} {tokens rest : List Token}
    {tree : Stmt} (sign : word.kind = .keyword .while)
    (reads : (whileStatement expression statement).Reads (word :: tokens) tree rest) :
    ∃ consumed dangling, word :: tokens = consumed ++ rest ∧
      Derives (.statement dangling) consumed tree ∧
      (dangling = true → Avoids (·.isKeyword .else) rest) := by
  simp only [whileStatement, reads_bind, reads_skip, reads_symbol, reads_pure] at reads
  obtain ⟨_, _, ⟨rfl, rfl⟩, opening, _, ⟨rfl, opens⟩, condition, _, readsCondition, closing, _,
    ⟨rfl, closes⟩, body, _, readsBody, rfl, rfl⟩ := reads
  obtain ⟨between, rfl, derivesCondition⟩ := soundExpression readsCondition
  obtain ⟨repeated, dangling, rfl, derivesBody, closed⟩ := soundStatement readsBody
  exact ⟨word :: opening :: (between ++ closing :: repeated), dangling, by simp,
    .whileLoop sign opens derivesCondition closes derivesBody, closed⟩

theorem forInitializer_sound (sound : Sound .expression expression) :
    Sound .forStart (forInitializer expression) := by
  intro tokens rest tree reads
  simp only [forInitializer, reads_bind, reads_optionalSymbol] at reads
  obtain ⟨sign, after, (⟨token, rfl, ends, rfl⟩ | ⟨_, rfl, rfl⟩), reads⟩ := reads
  · obtain ⟨rfl, rfl⟩ := reads_pure.mp reads
    exact ⟨[token], rfl, .startAbsent ends⟩
  · simp only [reads_bind, reads_sees] at reads
    obtain ⟨seen, _, ⟨rfl, rfl⟩, reads⟩ := reads
    split at reads
    · next isVar =>
        rw [reads_map] at reads
        obtain ⟨stmt, readsStmt, rfl⟩ := reads
        obtain ⟨word, others, rfl⟩ : ∃ word others, tokens = word :: others := by
          cases tokens with
          | nil => simp at isVar
          | cons word others => exact ⟨word, others, rfl⟩
        have sign : word.kind = .keyword .var := by simpa using isVar
        obtain ⟨consumed, same, derives⟩ := varDeclaration_sound sound sign readsStmt
        exact ⟨consumed, same, .startVariable derives⟩
    · rw [reads_map] at reads
      obtain ⟨stmt, readsStmt, rfl⟩ := reads
      obtain ⟨consumed, same, derives⟩ := expressionStatement_sound sound readsStmt
      exact ⟨consumed, same, .startExpression derives⟩

/-- The condition of a `for` statement with the semicolon behind it. -/
theorem forCondition_sound (sound : Sound .expression expression) {place : String}
    {tokens middle rest : List Token} {tree : Expr} {semicolon : Token}
    (reads : (forCondition expression).Reads tokens tree middle)
    (readsEnd : (symbol .semicolon place).Reads middle semicolon rest) :
    ∃ consumed condition, tokens = consumed ++ semicolon :: rest ∧
      Derives (.optional .expression) consumed condition ∧
      semicolon.kind = .symbol .semicolon ∧
      tree = condition.getD (.literal (.boolean true) semicolon.span) := by
  obtain ⟨rfl, ends⟩ := reads_symbol.mp readsEnd
  simp only [forCondition, reads_bind, reads_sees] at reads
  obtain ⟨seen, _, ⟨rfl, rfl⟩, reads⟩ := reads
  split at reads
  · simp only [reads_bind, reads_nextSpan, reads_pure] at reads
    obtain ⟨_, _, ⟨rfl, rfl⟩, rfl, rfl⟩ := reads
    exact ⟨[], none, rfl, .none .expression, ends, rfl⟩
  · obtain ⟨consumed, rfl, derives⟩ := sound reads
    exact ⟨consumed, some tree, rfl, .some derives, ends, rfl⟩

theorem forIncrement_sound (sound : Sound .expression expression) :
    Sound (.optional .expression) (forIncrement expression) := by
  intro tokens rest tree reads
  simp only [forIncrement, reads_bind, reads_sees] at reads
  obtain ⟨seen, _, ⟨rfl, rfl⟩, reads⟩ := reads
  split at reads
  · obtain ⟨rfl, rfl⟩ := reads_pure.mp reads
    exact ⟨[], rfl, .none .expression⟩
  · rw [reads_map] at reads
    obtain ⟨value, readsValue, rfl⟩ := reads
    obtain ⟨consumed, rfl, derives⟩ := sound readsValue
    exact ⟨consumed, rfl, .some derives⟩

@[simp] theorem forLoop_eq_meaningOfFor (start : Option Stmt) (condition : Expr)
    (increment : Option Expr) (body : Stmt) (span : Span) :
    forLoop start condition increment body span =
      meaningOfFor start condition increment body span := by
  cases start <;> rfl

theorem forStatement_sound (soundExpression : Sound .expression expression)
    (soundStatement : SoundStatement statement) {word : Token} {tokens rest : List Token}
    {tree : Stmt} (sign : word.kind = .keyword .for)
    (reads : (forStatement expression statement).Reads (word :: tokens) tree rest) :
    ∃ consumed dangling, word :: tokens = consumed ++ rest ∧
      Derives (.statement dangling) consumed tree ∧
      (dangling = true → Avoids (·.isKeyword .else) rest) := by
  simp only [forStatement, semicolon, reads_bind, reads_skip, reads_pure,
    forLoop_eq_meaningOfFor] at reads
  obtain ⟨_, _, ⟨rfl, rfl⟩, opening, _, readsOpening, start, _, readsStart, condition, _,
    readsCondition, semicolon, _, readsSemicolon, increment, _, readsIncrement, closing, _,
    readsClosing, body, _, readsBody, rfl, rfl⟩ := reads
  obtain ⟨rfl, opens⟩ := reads_symbol.mp readsOpening
  obtain ⟨first, rfl, derivesStart⟩ := forInitializer_sound soundExpression readsStart
  obtain ⟨second, condition, rfl, derivesCondition, ends, rfl⟩ :=
    forCondition_sound soundExpression readsCondition readsSemicolon
  obtain ⟨third, rfl, derivesIncrement⟩ := forIncrement_sound soundExpression readsIncrement
  obtain ⟨rfl, closes⟩ := reads_symbol.mp readsClosing
  obtain ⟨repeated, dangling, rfl, derivesBody, closed⟩ := soundStatement readsBody
  exact ⟨word :: opening :: (first ++ (second ++ semicolon :: (third ++ closing :: repeated))),
    dangling, by simp,
    .forLoop sign opens derivesStart derivesCondition ends derivesIncrement closes derivesBody,
    closed⟩

theorem statementOf_sound (soundExpression : Sound .expression expression)
    (soundStatement : SoundStatement statement) (soundDeclaration : Sound .declaration declaration)
    (bound : Nat) : SoundStatement (statementOf expression statement declaration bound) := by
  intro tokens rest tree reads
  simp only [statementOf, reads_bind, reads_peek] at reads
  obtain ⟨_, _, ⟨rfl, rfl⟩, reads⟩ := reads
  cases tokens with
  | nil =>
      obtain ⟨consumed, same, derives⟩ := expressionStatement_sound soundExpression reads
      rw [same]
      exact closed_sound (.ofExpression derives)
  | cons token tokens =>
      simp only [List.head?_cons, Option.map_some] at reads
      split at reads
      · next kind =>
          exact forStatement_sound soundExpression soundStatement (by simpa using kind) reads
      · next kind =>
          exact ifStatement_sound soundExpression soundStatement (by simpa using kind) reads
      · next kind =>
          obtain ⟨consumed, same, derives⟩ :=
            printStatement_sound soundExpression (by simpa using kind) reads
          rw [same]
          exact closed_sound derives
      · next kind =>
          obtain ⟨consumed, same, derives⟩ :=
            returnStatement_sound soundExpression (by simpa using kind) reads
          rw [same]
          exact closed_sound derives
      · next kind =>
          exact whileStatement_sound soundExpression soundStatement (by simpa using kind) reads
      · next kind =>
          obtain ⟨closing, rfl, ends, rfl⟩ := jumpStatement_sound _ _ reads
          exact ⟨[token, closing], false, rfl, .break (by simpa using kind) ends, by simp⟩
      · next kind =>
          obtain ⟨closing, rfl, ends, rfl⟩ := jumpStatement_sound _ _ reads
          exact ⟨[token, closing], false, rfl, .continue (by simpa using kind) ends, by simp⟩
      · next kind =>
          obtain ⟨consumed, same, derives⟩ :=
            blockStatement_sound soundDeclaration bound (by simpa using kind) reads
          rw [same]
          exact closed_sound derives
      · obtain ⟨consumed, same, derives⟩ := expressionStatement_sound soundExpression reads
        rw [same]
        exact closed_sound (.ofExpression derives)

/-! ## Declarations -/

theorem functionDeclaration_sound (sound : Sound .declaration declaration) (bound : Nat)
    {word : Token} {tokens rest : List Token} {tree : Stmt} (sign : word.kind = .keyword .fun)
    (reads : (functionDeclaration declaration bound).Reads (word :: tokens) tree rest) :
    ∃ consumed, word :: tokens = consumed ++ rest ∧ Derives .declaration consumed tree := by
  simp only [functionDeclaration, reads_bind, reads_skip, reads_name, reads_pure] at reads
  obtain ⟨_, _, ⟨rfl, rfl⟩, _, _, ⟨name, rfl, identifier, rfl⟩, _, _, readsRest, rfl, rfl⟩ := reads
  obtain ⟨behind, found, statements, rfl, derives, rfl⟩ :=
    functionRest_sound "function" _ sound bound readsRest
  exact ⟨word :: name :: behind, rfl, .ofFunction sign identifier derives⟩

theorem method_sound (sound : Sound .declaration declaration) (bound : Nat) :
    Sound .method (method declaration bound) := by
  intro tokens rest tree reads
  simp only [method, reads_bind, reads_name, reads_sees] at reads
  obtain ⟨_, _, ⟨name, rfl, identifier, rfl⟩, seen, _, ⟨rfl, rfl⟩, reads⟩ := reads
  split at reads
  · simp only [reads_bind, reads_pure] at reads
    obtain ⟨statements, _, readsBody, rfl, rfl⟩ := reads
    obtain ⟨behind, rfl, derives⟩ := functionBody_sound "method" sound bound readsBody
    exact ⟨name :: behind, rfl, .getter identifier derives⟩
  · obtain ⟨behind, found, statements, rfl, derives, rfl⟩ :=
      functionRest_sound "method" _ sound bound reads
    exact ⟨name :: behind, rfl, .method identifier derives⟩

theorem superclass_sound {tokens rest : List Token} {tree : Option Reference}
    (reads : superclass.Reads tokens tree rest) :
    ∃ consumed, tokens = consumed ++ rest ∧ Inheritance consumed tree := by
  simp only [superclass, reads_bind, reads_optionalSymbol] at reads
  obtain ⟨sign, after, (⟨mark, rfl, less, rfl⟩ | ⟨_, rfl, rfl⟩), reads⟩ := reads
  · simp only [reads_bind, reads_name, reads_pure] at reads
    obtain ⟨_, _, ⟨parent, rfl, identifier, rfl⟩, rfl, rfl⟩ := reads
    exact ⟨[mark, parent], rfl, .present mark parent less identifier⟩
  · obtain ⟨rfl, rfl⟩ := reads_pure.mp reads
    exact ⟨[], rfl, .absent⟩

theorem classDeclaration_sound (sound : Sound .declaration declaration) (bound : Nat)
    {word : Token} {tokens rest : List Token} {tree : Stmt} (sign : word.kind = .keyword .class)
    (reads : (classDeclaration declaration bound).Reads (word :: tokens) tree rest) :
    ∃ consumed, word :: tokens = consumed ++ rest ∧ Derives .declaration consumed tree := by
  simp only [classDeclaration, reads_bind, reads_skip, reads_name, reads_symbol,
    reads_pure] at reads
  obtain ⟨_, _, ⟨rfl, rfl⟩, _, _, ⟨name, rfl, identifier, rfl⟩, parent, _, readsParent, opening, _,
    ⟨rfl, opens⟩, methods, _, readsMethods, closing, _, ⟨rfl, closes⟩, rfl, rfl⟩ := reads
  obtain ⟨inherits, rfl, clause⟩ := superclass_sound readsParent
  obtain ⟨between, rfl, derives⟩ := itemsUntil_sound _ (method_sound sound bound) bound readsMethods
  exact ⟨word :: name :: (inherits ++ opening :: (between ++ [closing])), by simp,
    .ofClass sign identifier clause opens derives closes⟩

/-- A declaration that turns on the kind of its first token has a first token. -/
theorem exists_head_of_any {test : Token.Kind → Bool} {tokens : List Token}
    (seen : (tokens.head?.any fun token => test token.kind) = true) :
    ∃ word others, tokens = word :: others ∧ test word.kind = true := by
  cases tokens with
  | nil => simp at seen
  | cons word others => exact ⟨word, others, rfl, by simpa using seen⟩

theorem declarationOf_sound (soundExpression : Sound .expression expression)
    (soundStatement : SoundStatement statement) (soundDeclaration : Sound .declaration declaration)
    (bound : Nat) :
    Sound .declaration (declarationOf expression statement declaration bound) := by
  intro tokens rest tree reads
  simp only [declarationOf, reads_bind, reads_sees] at reads
  obtain ⟨seen, _, ⟨rfl, rfl⟩, reads⟩ := reads
  split at reads
  · next isClass =>
      obtain ⟨word, others, rfl, sign⟩ := exists_head_of_any isClass
      exact classDeclaration_sound soundDeclaration bound (isKeyword_iff.mp sign) reads
  · simp only [reads_bind] at reads
    obtain ⟨named, middle, readsNamed, reads⟩ := reads
    obtain ⟨rfl, isNamed⟩ := reads_seesNamedFunction.mp readsNamed
    split at reads
    · next named =>
        obtain ⟨word, name, others, rfl, sign, _⟩ := isNamed.mp named
        exact functionDeclaration_sound soundDeclaration bound sign reads
    · simp only [reads_bind, reads_sees] at reads
      obtain ⟨seen, _, ⟨rfl, rfl⟩, reads⟩ := reads
      split at reads
      · next isVar =>
          obtain ⟨word, others, rfl, sign⟩ := exists_head_of_any isVar
          obtain ⟨consumed, same, derives⟩ :=
            varDeclaration_sound soundExpression (isKeyword_iff.mp sign) reads
          exact ⟨consumed, same, .ofVariable derives⟩
      · obtain ⟨consumed, dangling, same, derives, _⟩ := soundStatement reads
        exact ⟨consumed, same, .ofStatement derives⟩

end Statements

/-! ## The nesting -/

/-- Whatever is read within a bound is a phrase of its sort. -/
theorem constructs_sound (bound : Nat) :
    Sound .expression (expression bound) ∧ Sound (.operation []) (operand bound) ∧
      SoundStatement (statement bound) ∧ Sound .declaration (declaration bound) := by
  induction bound with
  | zero =>
      refine ⟨?_, ?_, ?_, ?_⟩ <;> intro tokens rest tree reads
      · exact absurd reads not_reads_fail
      · exact absurd reads not_reads_fail
      · exact absurd reads not_reads_fail
      · exact absurd reads not_reads_fail
  | succ bound inductionHypothesis =>
      obtain ⟨soundExpression, soundOperand, soundStatement, soundDeclaration⟩ :=
        inductionHypothesis
      refine ⟨?_, ?_, ?_, ?_⟩
      · exact assignment_sound (operations_sound soundOperand bound Level.all) soundExpression
      · exact prefixed_sound soundOperand
          (suffixed_sound (primary_sound soundExpression soundDeclaration bound) soundExpression bound)
      · exact statementOf_sound soundExpression soundStatement soundDeclaration bound
      · exact declarationOf_sound soundExpression soundStatement soundDeclaration bound

end Lox.Grammar
