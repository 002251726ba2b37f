import Lox.Grammar.Reading
import Lox.Proofs.Grammar.Completeness.Statement

/-!
Contract: the parser accepts exactly the programs of the grammar.

Main statement: `Program.ofTokens_eq_ok_iff_derives`. A program is read from tokens
if and only if it is what they mean as a sequence of declarations, and tokens mean
at most one sequence of declarations. The bound on nested constructs and on the
number of declarations plays no part in it.

Owns: the loop over the declarations of a program, and the exactness of the parser.
-/

set_option autoImplicit false

namespace Lox

namespace Grammar

open Lox.Parser

/-! ## Tokens that matter -/

/-- The token is neither a comment nor an end mark. -/
def Meaningful (token : Token) : Prop :=
  token.kind.isComment = false ∧ token.kind.isEnd = false

theorem Text.tokens_of_append_mark {tokens : List Token} {mark : Token}
    (meaningful : ∀ token ∈ tokens, Meaningful token) (ends : mark.kind = .endOfSource) :
    (Text.of (tokens ++ [mark])).tokens = tokens := by
  have isEnd : mark.kind.isEnd = true := by rw [ends]; rfl
  have kept : Token.withoutComments (tokens ++ [mark]) = tokens ++ [mark] := by
    apply List.filter_eq_self.mpr
    intro token member
    obtain member | member := List.mem_append.mp member
    · simp [(meaningful token member).1]
    · rw [List.mem_singleton.mp member, ends]
      rfl
  simp only [Text.of, kept]
  rw [List.takeWhile_append_of_pos]
  · simp [isEnd]
  · intro token member
    simp [(meaningful token member).2]

/-! ## The loop over declarations -/

/-- A program is empty, or a declaration with a program behind it. -/
theorem Derives.declarations_cases {tokens : List Token} {trees : List Stmt}
    (derives : Derives (.repeated .declaration) tokens trees) :
    (tokens = [] ∧ trees = []) ∨ ∃ left right tree others, tokens = left ++ right ∧
      trees = tree :: others ∧ Derives .declaration left tree ∧
      Derives (.repeated .declaration) right others := by
  cases derives with
  | done => exact .inl ⟨rfl, rfl⟩
  | again first others => exact .inr ⟨_, _, _, _, rfl, rfl, first, others⟩

theorem Derives.avoids_else {tokens : List Token} {trees : List Stmt}
    (derives : Derives (.repeated .declaration) tokens trees) :
    Avoids (·.isKeyword .else) tokens := by
  obtain ⟨rfl, _⟩ | ⟨left, right, tree, others, rfl, _, first, _⟩ := derives.declarations_cases
  · exact avoids_nil _
  · obtain ⟨token, more, rfl, opens⟩ := first.begins
    rw [List.cons_append, avoids_cons, Bool.eq_false_iff]
    intro isElse
    rw [isKeyword_iff.mp isElse] at opens
    cases opens

/-- A derivable program is read without complaint. -/
theorem declarations_of_derives {bound : Nat} (rounds : Nat) {tokens : List Token}
    {trees : List Stmt} (derives : Derives (.repeated .declaration) tokens trees)
    (enough : tokens.length ≤ rounds) (room : 4 * tokens.length ≤ bound + 1) :
    declarations bound rounds tokens = ⟨trees, []⟩ := by
  induction rounds generalizing tokens trees with
  | zero =>
      obtain rfl := List.eq_nil_of_length_eq_zero (Nat.le_zero.mp enough)
      obtain ⟨_, rfl⟩ | ⟨left, right, _, _, same, _, first, _⟩ := derives.declarations_cases
      · rfl
      · obtain ⟨token, more, rfl, _⟩ := first.begins
        cases same
  | succ rounds inductionHypothesis =>
      obtain ⟨rfl, rfl⟩ | ⟨left, right, tree, others, rfl, rfl, first, behind⟩ :=
        derives.declarations_cases
      · rfl
      · rw [List.length_append] at enough room
        obtain ⟨token, more, rfl, _⟩ := first.begins
        rw [List.length_cons] at enough
        have reads : (declaration bound).Reads (token :: more ++ right) tree right :=
          first.readable bound right (by omega) behind.avoids_else
        have readsOthers := inductionHypothesis behind (by omega) (by omega)
        unfold Reads at reads
        rw [List.cons_append] at reads ⊢
        simp only [declarations, reads, readsOthers, List.append_nil]

/-- What is read without complaint is a derivable program. -/
theorem derives_of_declarations {bound : Nat} (rounds : Nat) {tokens : List Token}
    (enough : tokens.length ≤ rounds)
    (noComplaint : (declarations bound rounds tokens).complaints = []) :
    Derives (.repeated .declaration) tokens (declarations bound rounds tokens).statements := by
  induction rounds generalizing tokens with
  | zero =>
      obtain rfl := List.eq_nil_of_length_eq_zero (Nat.le_zero.mp enough)
      exact .done .declaration
  | succ rounds inductionHypothesis =>
      cases tokens with
      | nil => exact .done .declaration
      | cons token others =>
          rcases answer : declaration bound (token :: others) with ⟨complaint | found, rest, notes⟩
          · simp [declarations, answer] at noComplaint
          · simp only [declarations, answer, List.append_eq_nil_iff] at noComplaint ⊢
            obtain ⟨rfl, noOther⟩ := noComplaint
            obtain ⟨consumed, same, first⟩ := (constructs_sound bound).2.2.2 answer
            have shorter : rest.length ≤ rounds := by
              obtain ⟨head, more, rfl, _⟩ := first.begins
              have lengths := congrArg List.length same
              simp only [List.cons_append, List.length_cons, List.length_append] at lengths enough
              omega
            rw [same]
            exact .again first (inductionHypothesis shorter noOther)

end Grammar

open Grammar Lox.Parser

/-- A program that is read is what the tokens mean. -/
theorem Program.derives_of_ofTokens {tokens : List Token} {program : Program}
    (read : Program.ofTokens tokens = .ok program) :
    Derives (.repeated .declaration) (Text.of tokens).tokens program.statements := by
  simp only [Program.ofTokens] at read
  split at read
  · next noComplaint =>
      obtain rfl := Except.ok.inj read
      exact derives_of_declarations _ (Nat.le_refl _) noComplaint
  · cases read

/-- A bare expression that is read is what all the tokens mean. -/
theorem Expr.derives_of_ofTokens {tokens : List Token} {expr : Expr}
    (read : Expr.ofTokens tokens = .ok expr) :
    Derives .expression (Text.of tokens).tokens expr := by
  simp only [Expr.ofTokens] at read
  split at read
  · next found rest answer =>
      obtain rfl := Except.ok.inj read
      have reads : (bareExpression (boundFor _)).Reads _ found rest := answer
      simp only [bareExpression, reads_bind, reads_atEnd] at reads
      obtain ⟨value, _, readsValue, ended, behind, ⟨atEnd, rfl⟩, reads⟩ := reads
      obtain ⟨consumed, same, derives⟩ := (constructs_sound _).1 readsValue
      split at reads
      · next isEnd =>
          obtain ⟨rfl, _⟩ := reads_pure.mp reads
          obtain rfl := List.isEmpty_iff.mp (atEnd.trans isEnd)
          rw [List.append_nil] at same
          exact same ▸ derives
      · exact absurd reads not_reads_fail
  · cases read
  · cases read

/-- A program is read from tokens if and only if it is what they mean by the grammar,
and they mean at most one. -/
theorem Program.ofTokens_eq_ok_iff_derives {tokens : List Token} {mark : Token}
    (meaningful : ∀ token ∈ tokens, Meaningful token) (ends : mark.kind = .endOfSource) :
    (∀ program, Program.ofTokens (tokens ++ [mark]) = .ok program ↔
      Derives (.repeated .declaration) tokens program.statements) ∧
    ∀ first second : List Stmt, Derives (.repeated .declaration) tokens first →
      Derives (.repeated .declaration) tokens second → first = second := by
  have read : ∀ trees : List Stmt, Derives (.repeated .declaration) tokens trees →
      declarations (boundFor tokens) tokens.length tokens = ⟨trees, []⟩ := by
    intro trees derives
    exact declarations_of_derives tokens.length derives (Nat.le_refl _) (by unfold boundFor; omega)
  refine ⟨?_, ?_⟩
  · intro program
    simp only [Program.ofTokens, Text.tokens_of_append_mark meaningful ends]
    constructor
    · intro accepted
      split at accepted
      · next noComplaint =>
          obtain rfl := Except.ok.inj accepted
          exact derives_of_declarations tokens.length (Nat.le_refl _) noComplaint
      · cases accepted
    · intro derives
      rw [read _ derives]
  · intro first second derivesFirst derivesSecond
    have same := (read first derivesFirst).symm.trans (read second derivesSecond)
    exact (Findings.mk.inj same).1

/-- The tokens of `if (a) if (b) c; else d;` and of the end mark behind them are read
as a program in which the `else` belongs to the second `if`. -/
theorem Program.ofTokens_nested_conditional :
    let word (kind : Token.Kind) (lexeme : String) : Token := ⟨kind, lexeme, .nowhere⟩
    let name (text : String) : Expr := .variable ⟨⟨text, .nowhere⟩, none⟩
    Program.ofTokens
      ([word (.keyword .if) "if", word (.symbol .leftParen) "(", word .identifier "a",
        word (.symbol .rightParen) ")", word (.keyword .if) "if", word (.symbol .leftParen) "(",
        word .identifier "b", word (.symbol .rightParen) ")", word .identifier "c",
        word (.symbol .semicolon) ";", word (.keyword .else) "else", word .identifier "d",
        word (.symbol .semicolon) ";"] ++ [word .endOfSource ""]) =
      .ok ⟨[.conditional (name "a")
        (.conditional (name "b") (.expression (name "c") .nowhere)
          (some (.expression (name "d") .nowhere)) .nowhere) none .nowhere]⟩ := by
  intro word name
  have derivesName (text : String) : Derives .expression [word .identifier text] (name text) :=
    .operation (.tighter (.tighter (.tighter (.tighter (.tighter (.tighter (.operand
      (.primary (.reference rfl)))))))))
  have derivesBranch (text : String) : Derives (.statement false)
      [word .identifier text, word (.symbol .semicolon) ";"]
      (.expression (name text) .nowhere) :=
    .ofExpression (.expressionStatement (derivesName text) rfl)
  refine ((Program.ofTokens_eq_ok_iff_derives ?_ rfl).1 _).mpr ?_
  · intro token member
    simp only [List.mem_cons, List.not_mem_nil, or_false] at member
    obtain rfl | rfl | rfl | rfl | rfl | rfl | rfl | rfl | rfl | rfl | rfl | rfl | rfl := member <;>
      exact ⟨rfl, rfl⟩
  · exact .again (.ofStatement (.conditional rfl rfl (derivesName "a") rfl
      (.conditionalElse rfl rfl (derivesName "b") rfl (derivesBranch "c") rfl
        (derivesBranch "d")))) (.done .declaration)

end Lox
