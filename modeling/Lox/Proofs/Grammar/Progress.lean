import Mathlib.Data.List.TakeWhile
import Lox.Proofs.Grammar.Recovery

/-!
Contract: reading comes to an end, and stays within the tokens.

Tokens are kept without comments and with an end mark as the last. What matters to the grammar is
in front of the first end mark, and no rule goes on behind it. A rule goes only onward, and takes at
least one token where it succeeds. So the bound on nested constructs is never used up: every bound
that suffices gives the same answer. The rounds of a program come to their end for the same reason.

Main statement: `Program.reading_within`.

Owns: the end mark, the rules of the grammar as one family. Does not own: what the rules find.
-/

set_option autoImplicit false

namespace Lox

/-! ## The end mark -/

/-- The tokens as they are kept for reading: without comments, and with an end mark as the last. An
end mark that is missing stands where the last token stands, or nowhere. -/
def Token.marked (tokens : List Token) : List Token :=
  match (Token.withoutComments tokens).getLast? with
  | none => [⟨.endOfSource, "", .nowhere⟩]
  | some last =>
      if last.kind.isEnd then Token.withoutComments tokens
      else Token.withoutComments tokens ++ [⟨.endOfSource, "", last.span⟩]

namespace Grammar

open Lox.Parser

/-- What matters to the grammar is in front of the first end mark. -/
theorem Text.marked_eq (tokens : List Token) :
    ∃ mark behind, Token.marked tokens = (Text.of tokens).tokens ++ mark :: behind ∧
      mark.kind.isEnd = true ∧ mark.span = (Text.of tokens).finish := by
  simp only [Text.of, Token.marked]
  generalize Token.withoutComments tokens = kept
  have apart : kept.takeWhile (!·.kind.isEnd) ++ kept.dropWhile (!·.kind.isEnd) = kept :=
    List.takeWhile_append_dropWhile
  have first := kept.find?_eq_head?_dropWhile_not (·.kind.isEnd)
  cases behind : kept.dropWhile (!·.kind.isEnd) with
  | nil =>
      rw [behind, List.append_nil] at apart
      rw [behind, List.head?_nil] at first
      rw [apart, first]
      cases final : kept.getLast? with
      | none =>
          rw [List.getLast?_eq_none_iff.mp final]
          exact ⟨_, [], rfl, rfl, rfl⟩
      | some last =>
          have noMark := List.find?_eq_none.mp first last (List.mem_of_getLast? final)
          exact ⟨⟨.endOfSource, "", last.span⟩, [], if_neg noMark, rfl, rfl⟩
  | cons mark others =>
      rw [behind] at apart
      rw [behind, List.head?_cons] at first
      rw [first]
      have isMark : mark.kind.isEnd = true := by simpa using List.find?_some first
      cases final : kept.getLast? with
      | none => simp [List.getLast?_eq_none_iff.mp final] at apart
      | some last =>
          by_cases ends : last.kind.isEnd = true
          · exact ⟨mark, others, (if_pos ends).trans apart.symm, isMark, rfl⟩
          · refine ⟨mark, others ++ [⟨.endOfSource, "", last.span⟩], ?_, isMark, rfl⟩
            rw [← List.cons_append, ← List.append_assoc, apart]
            exact if_neg ends

theorem Text.not_isEnd_of_mem {tokens : List Token} {token : Token}
    (member : token ∈ (Text.of tokens).tokens) : token.kind.isEnd = false := by
  have before := List.mem_takeWhile_imp member
  simpa using before

/-! ## The rules -/

/-- The rules of the grammar. -/
inductive Rule where
  | bareExpression | expression | operations (levels : List Level) | operand | call | primary
  | arguments | parameters | blockRest | functionBody (role : String)
  | declaration | classDeclaration | functionDeclaration | varDeclaration
  | functionRest (role : String) (declared : Name) | method
  | statement | expressionStatement | printStatement | returnStatement
  | jumpStatement (word : Keyword) (node : Span → Stmt) | ifStatement | whileStatement
  | forStatement | blockStatement

namespace Rule

/-- What the rule finds. -/
def Tree : Rule → Type
  | bareExpression | expression | operations _ | operand | call | primary => Expr
  | arguments => List Expr × Token
  | parameters => List Name
  | blockRest | functionBody _ => List Stmt
  | functionRest _ _ | method => FunctionDeclaration
  | _ => Stmt

/-- How the rule reads, if this bound is left for the constructs that it nests. -/
def parser (bound : Nat) : (rule : Rule) → Parser rule.Tree
  | bareExpression => Grammar.bareExpression bound
  | expression => Grammar.expression bound
  | operations levels => Grammar.operations bound (Grammar.operand bound) levels
  | operand => Grammar.operand bound
  | call =>
      suffixed (Grammar.primary (Grammar.expression bound) (Grammar.declaration bound) bound)
        (Grammar.expression bound) bound
  | primary => Grammar.primary (Grammar.expression bound) (Grammar.declaration bound) bound
  | arguments => Parser.parenthesizedItems "arguments" (Grammar.expression bound) bound
  | parameters => Grammar.parameters bound
  | blockRest => Grammar.blockRest (Grammar.declaration bound) bound
  | functionBody role => Grammar.functionBody role (Grammar.declaration bound) bound
  | declaration => Grammar.declaration bound
  | classDeclaration => Grammar.classDeclaration (Grammar.declaration bound) bound
  | functionDeclaration => Grammar.functionDeclaration (Grammar.declaration bound) bound
  | varDeclaration => Grammar.varDeclaration (Grammar.expression bound)
  | functionRest role declared =>
      Grammar.functionRest role declared (Grammar.declaration bound) bound
  | method => Grammar.method (Grammar.declaration bound) bound
  | statement => Grammar.statement bound
  | expressionStatement => Grammar.expressionStatement (Grammar.expression bound)
  | printStatement => Grammar.printStatement (Grammar.expression bound)
  | returnStatement => Grammar.returnStatement (Grammar.expression bound)
  | jumpStatement word node => Grammar.jumpStatement word node
  | ifStatement => Grammar.ifStatement (Grammar.expression bound) (Grammar.statement bound)
  | whileStatement => Grammar.whileStatement (Grammar.expression bound) (Grammar.statement bound)
  | forStatement => Grammar.forStatement (Grammar.expression bound) (Grammar.statement bound)
  | blockStatement => Grammar.blockStatement (Grammar.declaration bound) bound

/-- On tokens that use up neither bound a rule gives the same answer under both. It goes onward,
and takes at least one token where it succeeds. -/
theorem settles (rule : Rule) {reach bound bound' : Nat} (enough : 4 * reach ≤ bound)
    (enough' : 4 * reach ≤ bound') :
    Settles 1 reach (rule.parser bound) (rule.parser bound') := by
  obtain ⟨operands, expressions, statements, declarations⟩ := settles_constructs reach
  have ofOperand := operands bound bound' (by omega) (by omega)
  have ofExpression := expressions bound bound' (by omega) (by omega)
  have ofStatement := statements bound bound' (by omega) (by omega)
  have ofDeclaration := declarations bound bound' enough enough'
  have all : reach ≤ bound := by omega
  have all' : reach ≤ bound' := by omega
  have fewer := Nat.le_succ reach
  have ofPrimary := (settles_primary ofExpression ofDeclaration all all').within fewer
  cases rule with
  | bareExpression =>
      cases reach with
      | zero => exact .nowhere _ _ _
      | succ reach =>
          exact ofExpression.bind_taking fun _ => Settles.atEnd.bind fun _ =>
            .ite (.pure _) (.fail (by simp) (by simp))
  | expression => exact ofExpression
  | operations levels => exact settles_operations ofOperand all all' levels
  | operand => exact ofOperand
  | call =>
      cases reach with
      | zero => exact .nowhere _ _ _
      | succ reach =>
          exact ofPrimary.bind_taking fun head => settles_suffixes
            (ofExpression.within (Nat.le_succ reach)) head (by omega) (by omega)
  | primary => exact ofPrimary
  | arguments => exact ofExpression.parenthesizedItems "arguments" all all'
  | parameters => exact settles_parameters all all'
  | blockRest => exact settles_blockRest ofDeclaration all all'
  | functionBody role => exact settles_functionBody role ofDeclaration all all'
  | declaration => exact ofDeclaration
  | classDeclaration => exact (settles_classDeclaration ofDeclaration all all').within fewer
  | functionDeclaration => exact (settles_functionDeclaration ofDeclaration all all').within fewer
  | varDeclaration => exact (settles_varDeclaration ofExpression).within fewer
  | functionRest role declared => exact settles_functionRest ofDeclaration all all' role declared
  | method => exact (settles_method ofDeclaration all all').within fewer
  | statement => exact ofStatement
  | expressionStatement => exact settles_expressionStatement ofExpression
  | printStatement => exact settles_printStatement ofExpression
  | returnStatement => exact settles_returnStatement ofExpression
  | jumpStatement word node => exact settles_jumpStatement word node
  | ifStatement => exact (settles_ifStatement ofExpression ofStatement).within fewer
  | whileStatement => exact (settles_whileStatement ofExpression ofStatement).within fewer
  | forStatement => exact (settles_forStatement ofExpression ofStatement).within fewer
  | blockStatement =>
      have ofBlock := settles_blockRest ofDeclaration all all'
      cases reach with
      | zero => exact .nowhere _ _ _
      | succ reach => exact Settles.skip.bind fun _ => ofBlock.bind_taking fun _ => .pure _

end Rule

theorem Recorded.bounded {tokens rest : List Token} {complaints : List Complaint}
    (recorded : Recorded tokens complaints rest) :
    ∀ complaint ∈ complaints, complaint.cause ≠ .nesting := by
  induction recorded with
  | skipped => simp
  | here tokens _ bounded => simpa using bounded
  | append _ _ former latter => exact List.forall_mem_append.mpr ⟨former, latter⟩
  | target _ _ inner => exact List.forall_mem_append.mpr ⟨inner, by simp⟩

/-- Reading by the rule from this point on comes to an end within the tokens: it does not use up
the bound on nested constructs, so that a larger one gives the same answer, it goes only onward,
and it takes at least one token where it succeeds. -/
structure Rule.EndsAt (rule : Rule) (bound : Nat) (point : List Token) : Prop where
  settled : ∀ larger, bound ≤ larger → rule.parser larger point = rule.parser bound point
  bounded : ∀ complaint ∈ (rule.parser bound point).complaints, complaint.cause ≠ .nesting
  onward : (rule.parser bound point).rest <:+ point
  taken : ∀ tree, (rule.parser bound point).outcome = .ok tree →
    (rule.parser bound point).rest.length < point.length

theorem Rule.endsAt (rule : Rule) {bound : Nat} {point : List Token}
    (enough : boundFor point ≤ bound) : rule.EndsAt bound point := by
  have room : 4 * (point.length + 1) ≤ bound := by
    unfold boundFor at enough
    omega
  have settles (larger : Nat) (le : bound ≤ larger) :=
    rule.settles room (Nat.le_trans room le) point (Nat.lt_succ_self _)
  obtain ⟨_, recorded, taken⟩ := settles bound (Nat.le_refl _)
  refine ⟨fun larger le => (settles larger le).same, recorded.bounded, recorded.suffix,
    fun tree reads => ?_⟩
  rcases answer : rule.parser bound point with ⟨outcome, rest, notes⟩
  rw [answer] at reads
  obtain rfl : outcome = .ok tree := reads
  exact taken tree rest notes answer

end Grammar

open Grammar

/-- Reading an expression does not fail without an error. -/
theorem Expr.ofTokens_ne_error_nil (tokens : List Token) : Expr.ofTokens tokens ≠ .error [] := by
  intro fails
  simp only [Expr.ofTokens] at fails
  split at fails
  · cases fails
  · next noted _ =>
      exact noted (List.map_eq_nil_iff.mp (Except.error.inj fails))
  · simp at fails

/-- Reading comes to an end within the tokens, whatever they are.

With a mark that is put at their end if it is missing, there is a first end mark, and every point
that is reached is in front of it or at it. From every such point each rule comes to an end, onward
and under every bound that suffices. Each round of a program begins further on than the round
before, so that there are at most as many as tokens and no bound plays any part. What comes of it
is a tree or an error. -/
theorem Program.reading_within (tokens : List Token) :
    (∃ mark behind, mark.kind.isEnd = true ∧ mark.span = (Text.of tokens).finish ∧
      ∀ point, point <:+ (Text.of tokens).tokens → ∃ read,
        Token.marked tokens = read ++ point ++ mark :: behind ∧
          ∀ token ∈ read ++ point, token.kind.isEnd = false) ∧
    (∀ (rule : Rule) (point : List Token) (bound : Nat), point <:+ (Text.of tokens).tokens →
      boundFor (Text.of tokens).tokens ≤ bound → rule.EndsAt bound point) ∧
    (∀ start ∈ rounds (Text.of tokens).tokens, start <:+ (Text.of tokens).tokens ∧
      (reading start).next <:+ start ∧ (reading start).next.length < start.length) ∧
    (rounds (Text.of tokens).tokens).length ≤ (Text.of tokens).tokens.length ∧
    (∀ bound granted, boundFor (Text.of tokens).tokens ≤ bound →
      (Text.of tokens).tokens.length ≤ granted →
        declarations bound granted (Text.of tokens).tokens = findings (Text.of tokens).tokens) ∧
    Program.ofTokens tokens ≠ .error [] ∧ Expr.ofTokens tokens ≠ .error [] := by
  refine ⟨?_, fun rule point bound later enough => ?_, fun start member => ?_,
    length_rounds_le _, fun bound granted => declarations_eq_findings,
    ofTokens_ne_error_nil tokens, Expr.ofTokens_ne_error_nil tokens⟩
  · obtain ⟨mark, behind, marked, isMark, place⟩ := Text.marked_eq tokens
    refine ⟨mark, behind, isMark, place, fun point later => ?_⟩
    obtain ⟨read, apart⟩ := later
    exact ⟨read, by rw [apart, marked], by rw [apart]; exact fun token => Text.not_isEnd_of_mem⟩
  · exact rule.endsAt (Nat.le_trans (boundFor_le later.length_le) enough)
  · obtain ⟨present, within⟩ := rounds_suffix _ start member
    exact ⟨within, reading_next_suffix start, reading_next_shorter present⟩

end Lox
