import Mathlib.Data.List.TakeWhile
import Lox.Proofs.Grammar.Exactness

/-!
Contract: bare expressions against statements.

A bare expression is what the grammar has as an expression, all of it. With a semicolon behind it
and nothing or the word `print` before it, it is one statement, and no other tokens are such a
statement. What is an expression is no program: its statement would still want the semicolon.

Main statements: `Derives.closed_iff_expression`, `Derives.closed_iff_print`,
`Derives.not_program_of_expression`.

Owns: the readings of the same tokens as an expression, as a statement and as a program. Does not
own: what is done with them.
-/

set_option autoImplicit false

namespace Lox

namespace Grammar

open Lox.Parser

/-! ## Texts -/

/-- Tokens that all matter are their own text. -/
theorem Text.tokens_of_meaningful {tokens : List Token}
    (meaningful : ∀ token ∈ tokens, Meaningful token) : (Text.of tokens).tokens = tokens := by
  have kept : Token.withoutComments tokens = tokens := by
    apply List.filter_eq_self.mpr
    intro token member
    simp [(meaningful token member).1]
  simp only [Text.of, kept]
  apply List.takeWhile_eq_self_iff.mpr
  intro token member
  simp [(meaningful token member).2]

/-- The text of any tokens matters. -/
theorem Text.meaningful_of_mem {tokens : List Token} {token : Token}
    (member : token ∈ (Text.of tokens).tokens) : Meaningful token := by
  have among : token ∈ Token.withoutComments tokens := List.takeWhile_subset _ member
  have notEnd := List.mem_takeWhile_imp (p := fun token : Token => !token.kind.isEnd) member
  exact ⟨by simpa using (List.mem_filter.mp among).2, by simpa using notEnd⟩

theorem boundFor_enough (tokens : List Token) : 4 * tokens.length ≤ boundFor tokens + 1 := by
  unfold boundFor
  omega

theorem endsExpression_nil : EndsExpression [] := by
  simp [EndsExpression, Ends]

/-! ## Statements of expressions -/

/-- The statement is an expression or prints one. -/
def Simple : Stmt → Prop
  | .expression _ _ | .print _ _ => True
  | _ => False

/-- A program of one statement is that declaration. -/
theorem derives_single_iff {tokens : List Token} {stmt : Stmt} :
    Derives (.repeated .declaration) tokens [stmt] ↔ Derives .declaration tokens stmt := by
  constructor
  · intro derives
    obtain ⟨_, impossible⟩ | ⟨left, right, tree, others, rfl, same, first, behind⟩ :=
      derives.declarations_cases
    · cases impossible
    · obtain ⟨rfl, rfl⟩ := List.cons.inj same
      obtain ⟨rfl, _⟩ | ⟨_, _, _, _, _, impossible, _⟩ := behind.declarations_cases
      · rwa [List.append_nil]
      · cases impossible
  · intro derives
    have single := Derives.again derives (.done .declaration)
    rwa [List.append_nil] at single

/-- What a `for` statement means is a loop, or a block around one. -/
theorem not_simple_meaningOfFor (start : Option Stmt) (condition : Expr) (increment : Option Expr)
    (body : Stmt) (span : Span) : ¬ Simple (meaningOfFor start condition increment body span) := by
  cases start <;> exact id

/-- A declaration that is a simple statement ends in a semicolon behind its expression. -/
theorem Derives.simple_declaration {tokens : List Token} {stmt : Stmt}
    (derives : Derives .declaration tokens stmt) (simple : Simple stmt) :
    ∃ inner mark value, Derives .expression inner value ∧
      ((tokens = inner ++ [mark] ∧ ∃ span, stmt = .expression value span) ∨
        ∃ word, tokens = word :: (inner ++ [mark]) ∧ word.kind = .keyword .print ∧
          stmt = .print value word.span) := by
  cases derives with
  | ofVariable inner =>
      cases inner
      exact simple.elim
  | ofFunction => exact simple.elim
  | ofClass => exact simple.elim
  | ofStatement inner =>
      generalize same : stmt = tree at inner
      rw [same] at simple
      cases inner with
      | ofExpression inner =>
          cases inner with
          | expressionStatement value ends => exact ⟨_, _, _, value, .inl ⟨rfl, _, rfl⟩⟩
      | print sign value ends => exact ⟨_, _, _, value, .inr ⟨_, rfl, sign, rfl⟩⟩
      | forLoop => exact absurd simple (not_simple_meaningOfFor _ _ _ _ _)
      | _ => exact simple.elim

variable {tokens : List Token} {mark : Token}

/-- Tokens and a semicolon are the statement of an expression exactly if they are the expression. -/
theorem Derives.closed_iff_expression (ends : mark.kind = .symbol .semicolon) {value : Expr} :
    (∃ span, Derives (.repeated .declaration) (tokens ++ [mark]) [Stmt.expression value span]) ↔
      Derives .expression tokens value := by
  constructor
  · rintro ⟨span, derives⟩
    obtain ⟨inner, last, found, derived, ⟨same, _, tree⟩ | ⟨_, _, _, tree⟩⟩ :=
      (derives_single_iff.mp derives).simple_declaration trivial
    · obtain ⟨rfl, rfl⟩ := Stmt.expression.inj tree
      obtain ⟨rfl, _⟩ := List.append_inj' same rfl
      exact derived
    · cases tree
  · intro derives
    obtain ⟨first, others, rfl, _⟩ := derives.begins
    exact ⟨first.span, derives_single_iff.mpr
      (.ofStatement (.ofExpression (.expressionStatement derives ends)))⟩

/-- The word `print`, tokens and a semicolon are the statement that prints an expression exactly if
the tokens are the expression. -/
theorem Derives.closed_iff_print {word : Token} (prints : word.kind = .keyword .print)
    (ends : mark.kind = .symbol .semicolon) {value : Expr} :
    Derives (.repeated .declaration) (word :: (tokens ++ [mark])) [Stmt.print value word.span] ↔
      Derives .expression tokens value := by
  constructor
  · intro derives
    obtain ⟨inner, last, found, derived, ⟨_, _, tree⟩ | ⟨first, same, _, tree⟩⟩ :=
      (derives_single_iff.mp derives).simple_declaration trivial
    · cases tree
    · obtain ⟨rfl, _⟩ := Stmt.print.inj tree
      obtain ⟨rfl, _⟩ := List.append_inj' (List.cons.inj same).2 rfl
      exact derived
  · intro derives
    exact derives_single_iff.mpr (.ofStatement (.print prints derives ends))

/-- What is an expression is no program. Its first declaration would be read in front of a semicolon
as well, but there the statement of the expression is read, and nothing is left. -/
theorem Derives.not_program_of_expression {value : Expr} (derives : Derives .expression tokens value)
    {trees : List Stmt} : ¬ Derives (.repeated .declaration) tokens trees := by
  intro program
  obtain ⟨mark, ends⟩ : ∃ mark : Token, mark.kind = .symbol .semicolon :=
    ⟨⟨.symbol .semicolon, ";", .nowhere⟩, rfl⟩
  obtain ⟨bound, enough⟩ : ∃ bound, 4 * (tokens ++ [mark]).length ≤ bound + 1 :=
    ⟨_, boundFor_enough _⟩
  obtain ⟨span, statement⟩ := (closed_iff_expression ends).mpr derives
  have all : (declaration bound).Reads (tokens ++ [mark] ++ []) (Stmt.expression value span) [] :=
    (derives_single_iff.mp statement).readable bound [] enough (avoids_nil _)
  obtain ⟨rfl, _⟩ | ⟨left, right, tree, others, rfl, _, first, behind⟩ := program.declarations_cases
  · exact derives.begins.ne_nil rfl
  · have avoids : Avoids (·.isKeyword .else) (right ++ [mark]) := by
      have before := behind.avoids_else
      cases right with
      | nil => simp [ends, Token.Kind.isKeyword]
      | cons => exact before
    have part := first.readable bound (right ++ [mark])
      (by simp only [List.length_append] at enough ⊢; omega) avoids
    rw [List.append_nil, List.append_assoc] at all
    exact List.append_ne_nil_of_right_ne_nil right (List.cons_ne_nil mark []) (part.unique all).2

end Grammar

open Grammar

/-! ## What is read -/

/-- A program is read exactly where the grammar has it. -/
theorem Program.ofTokens_ok_iff {tokens : List Token} {program : Program} :
    Program.ofTokens tokens = .ok program ↔
      Derives (.repeated .declaration) (Text.of tokens).tokens program.statements := by
  refine ⟨Program.derives_of_ofTokens, ?_⟩
  intro derives
  simp only [Program.ofTokens]
  rw [declarations_of_derives _ derives (Nat.le_refl _) (boundFor_enough _)]

/-- A bare expression is read exactly where the grammar has it. -/
theorem Expr.ofTokens_ok_iff {tokens : List Token} {expr : Expr} :
    Expr.ofTokens tokens = .ok expr ↔ Derives .expression (Text.of tokens).tokens expr := by
  refine ⟨Expr.derives_of_ofTokens, ?_⟩
  intro derives
  have reads : (expression (boundFor (Text.of tokens).tokens)).Reads
      ((Text.of tokens).tokens ++ []) expr [] :=
    derives.readable _ [] (boundFor_enough _) endsExpression_nil
  rw [List.append_nil] at reads
  have whole : (bareExpression (boundFor (Text.of tokens).tokens)).Reads
      (Text.of tokens).tokens expr [] := by
    simp only [bareExpression, Parser.reads_bind, Parser.reads_atEnd]
    exact ⟨expr, [], reads, true, [], ⟨rfl, rfl⟩, Parser.reads_pure.mpr ⟨rfl, rfl⟩⟩
  simp only [Expr.ofTokens]
  rw [whole]

end Lox
