import Lox.Proofs.Layout
import Lox.Proofs.Running.Loops
import Lox.Proofs.Unfolding.Phrases
import Lox.Proofs.Unfolding.Sessions

/-!
Contract: sources in which a `for` statement is written out.

A `for` statement with all its clauses is written out as a block of its first clause and a `while`
loop, the body of which is a block of the old body and the increment. Written anew, a source may
have its tokens at other places; only their kinds and texts matter.

Main statement: `Session.forStatement_writtenOut`.

Owns: `for` statements in their tokens, sources in which one is written out. Does not own: runs.
-/

set_option autoImplicit false

namespace Lox

open Binding

/-! ## Trees at other places -/

section Moved

variable {move : Span → Span}

mutual

/-- Where the other tree stands does not matter. -/
theorem Expr.Unfolds.of_moved {expr other another : Expr} (unfolds : expr.Unfolds other)
    (same : another.moved move = other.moved move) : expr.Unfolds another :=
  match unfolds with
  | .literal => by
      cases another <;> simp only [Expr.moved, reduceCtorEq, Expr.literal.injEq] at same
      obtain ⟨rfl, _⟩ := same
      exact .literal
  | .grouping unfolds => by
      cases another <;> simp only [Expr.moved, reduceCtorEq, Expr.grouping.injEq] at same
      exact .grouping (unfolds.of_moved same.1)
  | .variable sameName => by
      cases another <;> simp only [Expr.moved, reduceCtorEq, Expr.variable.injEq] at same
      exact .variable ((congrArg (·.name.text) same).trans sameName)
  | .assign sameName unfolds => by
      cases another <;> simp only [Expr.moved, reduceCtorEq, Expr.assign.injEq] at same
      obtain ⟨target, value, _⟩ := same
      exact .assign ((congrArg (·.name.text) target).trans sameName) (unfolds.of_moved value)
  | .unary unfolds => by
      cases another <;> simp only [Expr.moved, reduceCtorEq, Expr.unary.injEq] at same
      obtain ⟨rfl, operand, _⟩ := same
      exact .unary (unfolds.of_moved operand)
  | .binary unfoldsLeft unfoldsRight => by
      cases another <;> simp only [Expr.moved, reduceCtorEq, Expr.binary.injEq] at same
      obtain ⟨rfl, left, right, _⟩ := same
      exact .binary (unfoldsLeft.of_moved left) (unfoldsRight.of_moved right)
  | .logical unfoldsLeft unfoldsRight => by
      cases another <;> simp only [Expr.moved, reduceCtorEq, Expr.logical.injEq] at same
      obtain ⟨rfl, left, right, _⟩ := same
      exact .logical (unfoldsLeft.of_moved left) (unfoldsRight.of_moved right)
  | .call unfolds unfoldsArguments => by
      cases another <;> simp only [Expr.moved, reduceCtorEq, Expr.call.injEq] at same
      obtain ⟨callee, arguments, _⟩ := same
      exact .call (unfolds.of_moved callee) (unfoldsArguments.of_moved arguments)
  | .get unfolds sameName => by
      cases another <;> simp only [Expr.moved, reduceCtorEq, Expr.get.injEq] at same
      obtain ⟨object, name⟩ := same
      exact .get (unfolds.of_moved object) ((congrArg Name.text name).trans sameName)
  | .set unfolds sameName unfoldsValue => by
      cases another <;> simp only [Expr.moved, reduceCtorEq, Expr.set.injEq] at same
      obtain ⟨object, name, value, _⟩ := same
      exact .set (unfolds.of_moved object) ((congrArg Name.text name).trans sameName)
        (unfoldsValue.of_moved value)
  | .this => by
      cases another <;> simp only [Expr.moved, reduceCtorEq] at same
      exact .this
  | .super sameName => by
      cases another <;> simp only [Expr.moved, reduceCtorEq, Expr.super.injEq] at same
      obtain ⟨_, method, _⟩ := same
      exact .super ((congrArg Name.text method).trans sameName)
  | .lambda unfolds => by
      cases another <;> simp only [Expr.moved, reduceCtorEq, Expr.lambda.injEq] at same
      exact .lambda (unfolds.of_moved same)

theorem ExprsUnfold.of_moved {exprs others another : List Expr} (unfold : ExprsUnfold exprs others)
    (same : movedExprs move another = movedExprs move others) : ExprsUnfold exprs another :=
  match unfold with
  | .nil => by
      cases another <;> simp only [movedExprs, reduceCtorEq] at same
      exact .nil
  | .cons unfolds unfoldRest => by
      cases another <;> simp only [movedExprs, reduceCtorEq, List.cons.injEq] at same
      exact .cons (unfolds.of_moved same.1) (unfoldRest.of_moved same.2)

theorem OptionalExprUnfolds.of_moved {expr other another : Option Expr}
    (unfolds : OptionalExprUnfolds expr other)
    (same : movedOptionalExpr move another = movedOptionalExpr move other) :
    OptionalExprUnfolds expr another :=
  match unfolds with
  | .none => by
      cases another <;> simp only [movedOptionalExpr, reduceCtorEq] at same
      exact .none
  | .some unfolds => by
      cases another <;> simp only [movedOptionalExpr, reduceCtorEq, Option.some.injEq] at same
      exact .some (unfolds.of_moved same)

/-- Where the other tree stands does not matter. -/
theorem Stmt.Unfolds.of_moved {stmt other another : Stmt} (unfolds : stmt.Unfolds other)
    (same : another.moved move = other.moved move) : stmt.Unfolds another :=
  match unfolds with
  | .expression unfolds => by
      cases another <;> simp only [Stmt.moved, reduceCtorEq, Stmt.expression.injEq] at same
      exact .expression (unfolds.of_moved same.1)
  | .print unfolds => by
      cases another <;> simp only [Stmt.moved, reduceCtorEq, Stmt.print.injEq] at same
      exact .print (unfolds.of_moved same.1)
  | .var sameName unfolds => by
      cases another <;> simp only [Stmt.moved, reduceCtorEq, Stmt.var.injEq] at same
      obtain ⟨name, value, _⟩ := same
      exact .var ((congrArg Name.text name).trans sameName) (unfolds.of_moved value)
  | .block unfold => by
      cases another <;> simp only [Stmt.moved, reduceCtorEq, Stmt.block.injEq] at same
      exact .block (unfold.of_moved same.1)
  | .conditional unfoldsCondition unfoldsThen unfoldsElse => by
      cases another <;> simp only [Stmt.moved, reduceCtorEq, Stmt.conditional.injEq] at same
      obtain ⟨condition, thenBranch, elseBranch, _⟩ := same
      exact .conditional (unfoldsCondition.of_moved condition) (unfoldsThen.of_moved thenBranch)
        (unfoldsElse.of_moved elseBranch)
  | .loop unfoldsCondition unfoldsBody unfoldsIncrement => by
      cases another <;> simp only [Stmt.moved, reduceCtorEq, Stmt.loop.injEq] at same
      obtain ⟨condition, body, increment, _⟩ := same
      exact .loop (unfoldsCondition.of_moved condition) (unfoldsBody.of_moved body)
        (unfoldsIncrement.of_moved increment)
  | .writtenOut unfoldsCondition unfoldsBody unfoldsIncrement undeclaring notContinuing => by
      cases another <;>
        simp only [Stmt.moved, movedStmts, movedOptionalExpr, reduceCtorEq, Stmt.loop.injEq] at same
      next condition body increment span =>
      obtain ⟨sameCondition, sameRound, noIncrement, _⟩ := same
      -- The body of the loop is the block of a round.
      cases body <;> simp only [Stmt.moved, reduceCtorEq, Stmt.block.injEq] at sameRound
      next statements span =>
      cases increment <;> simp only [movedOptionalExpr, reduceCtorEq] at noIncrement
      obtain _ | ⟨body, _ | ⟨last, _ | ⟨_, _⟩⟩⟩ := statements <;>
        simp only [movedStmts, reduceCtorEq, List.cons.injEq, and_true, and_false,
          false_and] at sameRound
      obtain ⟨⟨sameBody, sameLast⟩, _⟩ := sameRound
      cases last <;> simp only [Stmt.moved, reduceCtorEq, Stmt.expression.injEq] at sameLast
      exact .writtenOut (unfoldsCondition.of_moved sameCondition) (unfoldsBody.of_moved sameBody)
        (unfoldsIncrement.of_moved sameLast.1) undeclaring notContinuing
  | .function unfolds => by
      cases another <;> simp only [Stmt.moved, reduceCtorEq, Stmt.function.injEq] at same
      exact .function (unfolds.of_moved same.1)
  | .return unfolds => by
      cases another <;> simp only [Stmt.moved, reduceCtorEq, Stmt.return.injEq] at same
      exact .return (unfolds.of_moved same.1)
  | .class sameName sameSuperclass unfold => by
      cases another <;> simp only [Stmt.moved, reduceCtorEq, Stmt.class.injEq] at same
      obtain ⟨name, superclass, methods, _⟩ := same
      have texts := congrArg (Option.map (·.name.text)) superclass
      simp only [Option.map_map] at texts
      exact .class ((congrArg Name.text name).trans sameName) (texts.trans sameSuperclass)
        (unfold.of_moved methods)
  | .break => by
      cases another <;> simp only [Stmt.moved, reduceCtorEq] at same
      exact .break
  | .continue => by
      cases another <;> simp only [Stmt.moved, reduceCtorEq] at same
      exact .continue

theorem OptionalStmtUnfolds.of_moved {stmt other another : Option Stmt}
    (unfolds : OptionalStmtUnfolds stmt other)
    (same : movedOptionalStmt move another = movedOptionalStmt move other) :
    OptionalStmtUnfolds stmt another :=
  match unfolds with
  | .none => by
      cases another <;> simp only [movedOptionalStmt, reduceCtorEq] at same
      exact .none
  | .some unfolds => by
      cases another <;> simp only [movedOptionalStmt, reduceCtorEq, Option.some.injEq] at same
      exact .some (unfolds.of_moved same)

theorem StmtsUnfold.of_moved {stmts others another : List Stmt} (unfold : StmtsUnfold stmts others)
    (same : movedStmts move another = movedStmts move others) : StmtsUnfold stmts another :=
  match unfold with
  | .nil => by
      cases another <;> simp only [movedStmts, reduceCtorEq] at same
      exact .nil
  | .cons unfolds unfoldRest => by
      cases another <;> simp only [movedStmts, reduceCtorEq, List.cons.injEq] at same
      exact .cons (unfolds.of_moved same.1) (unfoldRest.of_moved same.2)

theorem FunctionUnfolds.of_moved {function other another : FunctionDeclaration}
    (unfolds : FunctionUnfolds function other)
    (same : movedFunction move another = movedFunction move other) :
    FunctionUnfolds function another :=
  match unfolds with
  | .mk sameName sameParameters unfold => by
      obtain ⟨name, parameters, body, isGetter⟩ := another
      simp only [movedFunction, Declaration.mk.injEq] at same
      obtain ⟨names, others, bodies, rfl⟩ := same
      have texts := congrArg (List.map Name.text) others
      simp only [List.map_map] at texts
      exact .mk ((congrArg Name.text names).trans sameName) (texts.trans sameParameters)
        (unfold.of_moved bodies)

theorem FunctionsUnfold.of_moved {functions others another : List FunctionDeclaration}
    (unfold : FunctionsUnfold functions others)
    (same : movedFunctions move another = movedFunctions move others) :
    FunctionsUnfold functions another :=
  match unfold with
  | .nil => by
      cases another <;> simp only [movedFunctions, reduceCtorEq] at same
      exact .nil
  | .cons unfolds unfoldRest => by
      cases another <;> simp only [movedFunctions, reduceCtorEq, List.cons.injEq] at same
      exact .cons (unfolds.of_moved same.1) (unfoldRest.of_moved same.2)

end

end Moved

/-! ## Statements in their tokens -/

namespace Grammar

/-- A `for` statement with all its clauses. -/
structure ForStatement where
  word : Token
  opening : Token
  /-- The first clause, with its semicolon. -/
  first : List Token
  second : List Token
  semicolon : Token
  third : List Token
  closing : Token
  repeated : List Token
  start : Stmt
  condition : Expr
  increment : Expr
  /-- Whether the body ends in an `if` that lacks its `else`. -/
  dangling : Bool
  body : Stmt
  isFor : word.kind = .keyword .for
  opens : opening.kind = .symbol .leftParen
  starts : Derives .forStart first (some start)
  tests : Derives .expression second condition
  ends : semicolon.kind = .symbol .semicolon
  steps : Derives .expression third increment
  closes : closing.kind = .symbol .rightParen
  repeats : Derives (.statement dangling) repeated body

namespace ForStatement

variable (loop : ForStatement)

/-- The tokens behind the word. -/
def clauses : List Token :=
  loop.opening :: (loop.first ++ (loop.second ++ loop.semicolon ::
    (loop.third ++ loop.closing :: loop.repeated)))

/-- The tokens of the statement. -/
def tokens : List Token := loop.word :: loop.clauses

/-- What the statement means. -/
def meaning : Stmt :=
  .block [loop.start, .loop loop.condition loop.body (some loop.increment) loop.word.span]
    loop.word.span

theorem derives : Derives (.statement loop.dangling) loop.tokens loop.meaning :=
  .forLoop loop.isFor loop.opens loop.starts (.some loop.tests) loop.ends (.some loop.steps)
    loop.closes loop.repeats

/-- The tokens of a block with the old body and the increment as a statement of its own. -/
def round : List Token :=
  ⟨.symbol .leftBrace, "\x7b", loop.word.span⟩ ::
    ((loop.repeated ++ (loop.third ++ [loop.semicolon])) ++
      [⟨.symbol .rightBrace, "\x7d", loop.word.span⟩])

/-- The tokens of a block with the first clause and a `while` loop whose body is the round. -/
def writtenOut : List Token :=
  ⟨.symbol .leftBrace, "\x7b", loop.word.span⟩ ::
    ((loop.first ++ (⟨.keyword .while, "while", loop.word.span⟩ :: loop.opening ::
      (loop.second ++ loop.closing :: loop.round))) ++
      [⟨.symbol .rightBrace, "\x7d", loop.word.span⟩])

/-- The increment stands as a statement of its own. -/
theorem derives_increment : ∃ span,
    Derives (.statement false) (loop.third ++ [loop.semicolon])
      (.expression loop.increment span) := by
  have steps := loop.steps
  obtain ⟨first, others, same, _⟩ := steps.begins
  rw [same] at steps ⊢
  exact ⟨_, .ofExpression (.expressionStatement steps loop.ends)⟩

/-- So does the first clause. -/
theorem derives_start : Derives .declaration loop.first loop.start := by
  have starts := loop.starts
  generalize loop.first = first at starts
  generalize start : some loop.start = found at starts
  cases starts with
  | startAbsent ends => cases start
  | startVariable inner =>
      obtain rfl := Option.some.inj start
      exact .ofVariable inner
  | startExpression inner =>
      obtain rfl := Option.some.inj start
      exact .ofStatement (.ofExpression inner)

theorem derives_round : ∃ span spanOfIncrement,
    Derives (.statement false) loop.round
      (.block [loop.body, .expression loop.increment spanOfIncrement] span) := by
  obtain ⟨spanOfIncrement, increments⟩ := loop.derives_increment
  have statements : Derives (.repeated .declaration)
      (loop.repeated ++ (loop.third ++ [loop.semicolon]))
      [loop.body, .expression loop.increment spanOfIncrement] := by
    have last := Derives.again (.ofStatement increments) (.done .declaration)
    rw [List.append_nil] at last
    exact .again (.ofStatement loop.repeats) last
  exact ⟨_, spanOfIncrement, .block (.body rfl statements rfl)⟩

/-- What is written out is a statement that is not dangling. If no `continue` in the body is about
the loop, it means the same. -/
theorem derives_writtenOut (undeclaring : loop.body.declares = [])
    (notContinuing : loop.body.continues = false) :
    ∃ other, Derives (.statement false) loop.writtenOut other ∧ loop.meaning.Unfolds other := by
  obtain ⟨span, spanOfIncrement, rounds⟩ := loop.derives_round
  have loops : Derives (.statement false) (⟨.keyword .while, "while", loop.word.span⟩ ::
      loop.opening :: (loop.second ++ loop.closing :: loop.round)) _ :=
    .whileLoop rfl loop.opens loop.tests loop.closes rounds
  have last := Derives.again (.ofStatement loops) (.done .declaration)
  rw [List.append_nil] at last
  refine ⟨_, .block (.body rfl (.again loop.derives_start last) rfl),
    .block (.cons (.refl _) (.cons ?_ .nil))⟩
  exact .writtenOut (.refl _) (.refl _) (.refl _) undeclaring notContinuing

end ForStatement

end Grammar

/-! ## Sources -/

open Grammar

/-- The tokens of a source that matter to the grammar: no comments, and no end mark. -/
def Scan.words (scan : Scan) : List Token := (Text.of scan.tokens).tokens

/-- The token without its place. -/
def Token.wording (token : Token) : Token.Kind × String := (token.kind, token.lexeme)

/-- The other source is the first one with a `for` statement written out, which stands in between
these tokens. Blanks, line ends and comments do not matter. -/
structure Grammar.ForStatement.WrittenOut (loop : ForStatement) (front rest : List Token)
    (source other : String) : Prop where
  stands : (Scan.of source).words = front ++ (loop.tokens ++ rest)
  /-- The statement ends there: an `else` behind a dangling one would be a part of it. -/
  whole : loop.dangling = true → Parser.Avoids (·.isKeyword .else) rest
  clean : (Scan.of other).errors = []
  written : (Scan.of other).words.map Token.wording =
    (front ++ (loop.writtenOut ++ rest)).map Token.wording

theorem ParsedSource.derives_of_program {source : String} {program : Program}
    (read : (ParsedSource.of source).program = some program) :
    Derives (.repeated .declaration) (Scan.of source).words program.statements :=
  Program.derives_of_ofTokens (program_of_eq_some_iff.mp read).2

/-- Tokens that mean a program at other places are read. -/
theorem Program.exists_ofTokens_of_moved {move : Span → Span} (nowhere : move .nowhere = .nowhere)
    {tokens : List Token} {stmts : List Stmt}
    (derives : Derives (.repeated .declaration) ((Text.of tokens).tokens.map (Token.moved move))
      stmts) :
    ∃ program, Program.ofTokens tokens = .ok program ∧
      movedStmts move program.statements = stmts := by
  simp only [Program.ofTokens]
  generalize (Text.of tokens).tokens = words at derives ⊢
  have reads : declarations (boundFor words) words.length (words.map (Token.moved move)) =
      ⟨stmts, []⟩ :=
    declarations_of_derives words.length derives (by rw [List.length_map])
      (by rw [List.length_map]; unfold boundFor; omega)
  rw [declarations_moved nowhere, Findings.moved, Findings.mk.injEq] at reads
  obtain ⟨trees, complaints⟩ := reads
  rw [List.map_eq_nil_iff.mp complaints]
  exact ⟨_, rfl, by rw [movedStmts_eq_map, trees]⟩

/-- Tokens that mean a program are read wherever they stand. -/
theorem ParsedSource.exists_program_of_wording {source : String} {tokens : List Token}
    {stmts : List Stmt} (clean : (Scan.of source).errors = [])
    (same : (Scan.of source).words.map Token.wording = tokens.map Token.wording)
    (derives : Derives (.repeated .declaration) tokens stmts) :
    ∃ program, (ParsedSource.of source).program = some program ∧
      movedStmts (fun _ => .nowhere) program.statements =
        movedStmts (fun _ => .nowhere) stmts := by
  have written (tokens : List Token) : tokens.map (Token.moved fun _ => .nowhere) =
      (tokens.map Token.wording).map fun word => ⟨word.1, word.2, .nowhere⟩ := by
    rw [List.map_map]
    rfl
  have placeless : (Scan.of source).words.map (Token.moved fun _ => .nowhere) =
      tokens.map (Token.moved fun _ => .nowhere) := by
    rw [written, written, same]
  have moved := derives.moved fun _ => .nowhere
  rw [← placeless] at moved
  obtain ⟨program, read, trees⟩ := Program.exists_ofTokens_of_moved rfl moved
  refine ⟨program, program_of_eq_some_iff.mpr ⟨clean, read⟩, trees.trans ?_⟩
  rw [movedStmts_eq_map]
  rfl

namespace Grammar.ForStatement.WrittenOut

variable {loop : ForStatement} {front rest : List Token} {source other : String}

/-- The body of a loop that stands in a source declares nothing in the scope around it. -/
theorem undeclaring (written : loop.WrittenOut front rest source other) :
    loop.body.declares = [] := by
  have plain : PlainTokens loop.repeated := by
    intro token member
    refine plainTokens_of_scan source token ?_
    show token ∈ (Scan.of source).words
    rw [written.stands]
    simp [tokens, clauses, member]
  obtain ⟨unbound, noDeclaration⟩ := loop.repeats.unbound plain
  rw [Stmt.declares_of_unbound _ unbound, noDeclaration]
  rfl

/-- The other source has a program as well, and this is the program with loops written out. -/
theorem exists_program (written : loop.WrittenOut front rest source other)
    (notContinuing : loop.body.continues = false) {program : Program}
    (read : (ParsedSource.of source).program = some program) :
    ∃ another, (ParsedSource.of other).program = some another ∧ program.Unfolds another := by
  have derives := ParsedSource.derives_of_program read
  rw [written.stands] at derives
  obtain ⟨statement, closed, meaning⟩ := loop.derives_writtenOut written.undeclaring notContinuing
  obtain ⟨stmts, replaced, unfold⟩ :=
    derives.replace loop.isFor loop.derives written.whole closed meaning
  obtain ⟨another, readOther, moved⟩ :=
    ParsedSource.exists_program_of_wording written.clean written.written replaced
  exact ⟨another, readOther, unfold.of_moved moved⟩

end Grammar.ForStatement.WrittenOut

/-! ## Sessions -/

namespace Session

variable {session : Session}

/-- In this session the two sources do the same: both come to an end or none does, and if they do
they report the same. -/
structure RunAlike (session : Session) (source other : String) : Prop where
  ends : (∃ budget, (session.run budget source).1.status ≠ .unfinished) ↔
    ∃ budget, (session.run budget other).1.status ≠ .unfinished
  reports : ∀ budget budget', (session.run budget source).1.status ≠ .unfinished →
    (session.run budget' other).1.status ≠ .unfinished →
    (session.run budget source).1.Resembles (session.run budget' other).1

/-- The source has a program, and the names in it are bound. -/
def Accepts (session : Session) (source : String) : Prop :=
  ∃ program, (ParsedSource.of source).program = some program ∧
    (session.resolver.resolve program).errors = []

theorem Steady.run_writtenOut {outlet : Outlet} (steady : session.Steady outlet) {loop : ForStatement}
    {front rest : List Token} {source other : String}
    (written : loop.WrittenOut front rest source other)
    (notContinuing : loop.body.continues = false) (accepts : session.Accepts source) :
    session.Accepts other ∧ session.RunAlike source other := by
  obtain ⟨program, read, accepted⟩ := accepts
  obtain ⟨another, readOther, unfolds⟩ := written.exists_program notContinuing read
  obtain ⟨acceptedOther, ends, reports⟩ := steady.execute_unfolds (ParsedSource.unbound read)
    (ParsedSource.unbound readOther) unfolds accepted
  refine ⟨⟨another, readOther, acceptedOther⟩, ?_, ?_⟩
  · simpa only [run_of_program _ read, run_of_program _ readOther] using ends
  · simpa only [run_of_program _ read, run_of_program _ readOther] using reports

/-- Whatever a session has served: if a `for` statement with all its clauses, in whose body no
`continue` is about the loop, is written out in a source that the session accepts, then the other
source is accepted as well, and the two do the same.

With or without a `continue`, every loop with an increment that a session executes goes in rounds,
in which the increment is evaluated once, in the scope of the loop; and this is the scope in which
the first clause of the statement has been executed. -/
theorem forStatement_writtenOut (callLimit : Nat) (outlet : Outlet) (clock : Clock) (budget : Nat)
    {requests : List Request}
    (honest : ServedHonestly budget requests (new callLimit outlet clock))
    (discreet : ∀ request ∈ requests, request.Discreet) :
    let session := (serve (Session.answer budget) requests (new callLimit outlet clock)).2
    (∀ (loop : ForStatement) (front rest : List Token) (source other : String),
      loop.WrittenOut front rest source other → loop.body.continues = false →
        session.Accepts source → session.Accepts other ∧ session.RunAlike source other) ∧
    ∀ entry ∈ begun budget requests (new callLimit outlet clock),
      ∀ (steps : Nat) (world : World) (span : Span) (stack : Stack .flow),
      let machine := (Machine.execute entry.1 entry.2 .empty).run steps
      (∀ (loop : Loop) (increment : Expr), loop.increment = some increment →
        machine = .execute world (.loop loop.condition loop.body loop.increment span) stack →
          loop.InRounds increment world span stack) ∧
      ∀ (start loop : Stmt) (begins : World),
        machine = .execute world (.block [start, loop] span) stack →
        (world.enter world.scope #[]).Executes start .normal begins →
          begins.scope = (world.enter world.scope #[]).scope ∧
          ∃ more, machine.run more =
            .execute begins loop (.push (.sequence []) (.push (.leave world.scope) stack)) := by
  intro session
  refine ⟨fun loop front rest source other written notContinuing accepts => ?_, ?_⟩
  · exact ((steady_new callLimit outlet clock).serve budget honest discreet).run_writtenOut written
      notContinuing accepts
  · intro entry member steps world span stack machine
    have within := within_of_begun callLimit outlet clock budget honest entry member steps
    refine ⟨fun loop increment increments executes => ?_,
      fun start loop begins executes clause => ?_⟩
    · rw [show (Machine.execute entry.1 entry.2 .empty).run steps = _ from executes] at within
      exact loop.inRounds increments within span stack
    · rw [show (Machine.execute entry.1 entry.2 .empty).run steps = _ from executes] at within
      rw [executes]
      exact Machine.exists_run_second within span stack clause

/-- A loop that a global variable ends. -/
def untilDone : String := "for (var s = \"\"; s != done; s = done) print s;"

/-- The loop, written out in several lines. -/
def untilDoneWrittenOut : String :=
  "\x7b\n  var s = \"\";\n  while (s != done) \x7b\n    print s; // once\n    s = done;\n\x7d \x7d"

/-- A token of the loop, which stands in one line. -/
def tokenAt (kind : Token.Kind) (lexeme : String) (column length : Nat) : Token :=
  ⟨kind, lexeme, ⟨1, column, length⟩⟩

/-- A variable is an operand at every level. -/
theorem derives_variable (levels : List Level) {word : Token}
    (identifier : word.kind = .identifier) :
    Derives (.operation levels) [word] (Expr.variable ⟨nameOf word, none⟩) := by
  induction levels with
  | nil => exact .operand (.primary (.reference identifier))
  | cons level levels inductionHypothesis => exact .tighter inductionHypothesis

theorem derives_notEqual {left sign right : Token} (identifier : left.kind = .identifier)
    (differs : sign.kind = .symbol .bangEqual) (identifierToo : right.kind = .identifier) :
    Derives .expression [left, sign, right] (Expr.binary .notEqual
      (.variable ⟨nameOf left, none⟩) (.variable ⟨nameOf right, none⟩) sign.span) := by
  have connects : Infix .equality sign.kind (.binary .notEqual) := by
    rw [differs]
    exact .notEqual
  have joined := Derives.joined
    (derives_variable [.equality, .comparison, .term, .factor] identifier) connects
    (derives_variable [.comparison, .term, .factor] identifierToo)
  exact .operation (.tighter (.tighter joined))

theorem derives_assignment {left sign right : Token} (identifier : left.kind = .identifier)
    (assigns : sign.kind = .symbol .equal) (identifierToo : right.kind = .identifier) :
    Derives .expression [left, sign, right] (Expr.assign ⟨nameOf left, none⟩
      (.variable ⟨nameOf right, none⟩) sign.span) := by
  have value := Derives.operation (derives_variable _ identifierToo)
  exact Derives.assignVariable (derives_variable _ identifier) assigns value

/-- The tokens of the loop. -/
def untilDoneStatement : ForStatement where
  word := tokenAt (.keyword .for) "for" 1 3
  opening := tokenAt (.symbol .leftParen) "(" 5 1
  first := [tokenAt (.keyword .var) "var" 6 3, tokenAt .identifier "s" 10 1,
    tokenAt (.symbol .equal) "=" 12 1, tokenAt (.string "") "\"\"" 14 1,
    tokenAt (.symbol .semicolon) ";" 16 1]
  second := [tokenAt .identifier "s" 18 1, tokenAt (.symbol .bangEqual) "!=" 20 2,
    tokenAt .identifier "done" 23 4]
  semicolon := tokenAt (.symbol .semicolon) ";" 27 1
  third := [tokenAt .identifier "s" 29 1, tokenAt (.symbol .equal) "=" 31 1,
    tokenAt .identifier "done" 33 4]
  closing := tokenAt (.symbol .rightParen) ")" 37 1
  repeated := [tokenAt (.keyword .print) "print" 39 5, tokenAt .identifier "s" 45 1,
    tokenAt (.symbol .semicolon) ";" 46 1]
  start := .var ⟨"s", ⟨1, 10, 1⟩⟩ (some (.literal (.string "") ⟨1, 14, 1⟩)) ⟨1, 6, 3⟩
  condition := .binary .notEqual (.variable ⟨⟨"s", ⟨1, 18, 1⟩⟩, none⟩)
    (.variable ⟨⟨"done", ⟨1, 23, 4⟩⟩, none⟩) ⟨1, 20, 2⟩
  increment := .assign ⟨⟨"s", ⟨1, 29, 1⟩⟩, none⟩ (.variable ⟨⟨"done", ⟨1, 33, 4⟩⟩, none⟩) ⟨1, 31, 1⟩
  dangling := false
  body := .print (.variable ⟨⟨"s", ⟨1, 45, 1⟩⟩, none⟩) ⟨1, 39, 5⟩
  isFor := rfl
  opens := rfl
  starts := .startVariable (.varDeclaration rfl rfl (.initializer rfl (.operation
    (.tighter (.tighter (.tighter (.tighter (.tighter (.tighter (.operand (.primary (.constant
      (.string "")))))))))))) rfl)
  tests := derives_notEqual rfl rfl rfl
  ends := rfl
  steps := derives_assignment rfl rfl rfl
  closes := rfl
  repeats := .print rfl (.operation (derives_variable _ rfl)) rfl

/-- Tokens that agree in kind, text and place are the same. -/
theorem eq_of_wording_of_span {tokens others : List Token}
    (words : tokens.map Token.wording = others.map Token.wording)
    (spans : tokens.map Token.span = others.map Token.span) : tokens = others := by
  induction tokens generalizing others with
  | nil => exact (List.map_eq_nil_iff.mp words.symm).symm
  | cons token tokens inductionHypothesis =>
      cases others with
      | nil => cases words
      | cons other others =>
          obtain ⟨word, words⟩ := List.cons.inj words
          obtain ⟨span, spans⟩ := List.cons.inj spans
          rw [inductionHypothesis words spans]
          obtain ⟨kind, lexeme, place⟩ := token
          obtain ⟨kind', lexeme', place'⟩ := other
          obtain ⟨rfl, rfl⟩ := Prod.mk.inj word
          obtain rfl : place = place' := span
          rfl

/-- Both sources print the empty string, and the second loop of a session does as well. -/
theorem forStatement_writtenOut_untilDone :
    let requests : List Request := [.run "var done = \"a\";", .run untilDone]
    let session := (serve (Session.answer 200) requests (new 2048 .working (.still 0))).2
    untilDoneStatement.WrittenOut [] [] untilDone untilDoneWrittenOut ∧
      session.Accepts untilDoneWrittenOut ∧
      (session.run 200 untilDone).1.Resembles (session.run 200 untilDoneWrittenOut).1 ∧
      (session.run 200 untilDoneWrittenOut).1.output = "\n" ∧
      ∃ entry ∈ begun 200 requests (new 2048 .working (.still 0)),
        ∃ (steps : Nat) (world : World) (loop : Loop) (increment : Expr) (span : Span)
          (stack : Stack .flow),
        (Machine.execute entry.1 entry.2 .empty).run steps =
            .execute world (.loop loop.condition loop.body (some increment) span) stack ∧
          loop.InRounds increment world span stack := by
  intro requests session
  have honest : ServedHonestly 200 requests (new 2048 .working (.still 0)) :=
    ⟨trivial, trivial, trivial⟩
  have discreet : ∀ request ∈ requests, request.Discreet := by simp [requests, Request.Discreet]
  obtain ⟨alike, rounds⟩ := forStatement_writtenOut 2048 .working (.still 0) 200 honest discreet
  have written : untilDoneStatement.WrittenOut [] [] untilDone untilDoneWrittenOut :=
    { stands := eq_of_wording_of_span (eq_of_wordsAgree (by decide +kernel)) (by decide +kernel)
      whole := fun dangling => absurd dangling Bool.false_ne_true
      clean := by decide +kernel
      written := eq_of_wordsAgree (by decide +kernel) }
  have ran : (session.run 200 untilDone).1.status ≠ .staticError := by decide +kernel
  have accepted : session.Accepts untilDone := accepted_of_run ran
  obtain ⟨accepts, same⟩ := alike untilDoneStatement [] [] untilDone untilDoneWrittenOut written rfl
    accepted
  have reaches : (begun 200 requests (new 2048 .working (.still 0))).any (fun entry =>
      ((Machine.execute entry.1 entry.2 .empty).run 5).startsFor) = true := by
    decide +kernel
  obtain ⟨entry, member, starts⟩ := List.any_eq_true.mp reaches
  obtain ⟨world, loop, increment, span, stack, increments, executes⟩ :=
    Machine.exists_loop_of_startsFor starts
  exact ⟨written, accepts, same.reports 200 200 (by decide +kernel) (by decide +kernel),
    by decide +kernel, entry, member, 5, world, loop, increment, span, stack,
    increments ▸ executes,
    (rounds entry member 5 world span stack).1 loop increment increments executes⟩

end Session

end Lox
