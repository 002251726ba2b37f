import Lox.Proofs.Grammar.Exactness
import Lox.Proofs.Places.Scanning
import Lox.Proofs.Places.Tree

/-!
Contract: the grammar does not look at places.

Tokens at other places mean the tree at other places. And two programs one after the other
are a program: what the first means is not changed by what follows, because nothing that
begins a declaration goes on a statement that is complete.

Main statements: `Derives.moved`, `Program.ofTokens_append`.

Owns: derivations from moved tokens, and programs in two parts. Does not own: where the
tokens of a source stand.
-/

set_option autoImplicit false

namespace Lox

namespace Grammar

/-! ## Moved tokens -/

/-- What a phrase means, at other places. -/
def Phrase.moved (move : Span → Span) : (phrase : Phrase) → phrase.Tree → phrase.Tree
  | .expression => Expr.moved move
  | .operation _ => Expr.moved move
  | .call => Expr.moved move
  | .primary => Expr.moved move
  | .parameter => Name.moved move
  | .function => fun tree => (tree.1.map (Name.moved move), movedStmts move tree.2)
  | .body => movedStmts move
  | .method => movedFunction move
  | .initializer => movedOptionalExpr move
  | .varDeclaration => Stmt.moved move
  | .expressionStatement => Stmt.moved move
  | .statement _ => Stmt.moved move
  | .declaration => Stmt.moved move
  | .forStart => movedOptionalStmt move
  | .optional item => Option.map (item.moved move)
  | .repeated item => List.map (item.moved move)
  | .separated item => List.map (item.moved move)
  | .list item => List.map (item.moved move)

section Moved

variable (move : Span → Span)

theorem Inheritance.moved {tokens : List Token} {superclass : Option Reference}
    (clause : Inheritance tokens superclass) :
    Inheritance (tokens.map (Token.moved move)) (superclass.map (Reference.moved move)) := by
  cases clause with
  | absent => exact .absent
  | present mark parent less identifier =>
      exact .present (mark.moved move) (parent.moved move) less identifier

theorem moved_operationOf (left : Expr) (span : Span) (right : Expr) (connective : Connective) :
    (operationOf left span right connective).moved move =
      operationOf (left.moved move) (move span) (right.moved move) connective := by
  cases connective <;> rfl

theorem moved_meaningOfFor (start : Option Stmt) (condition : Expr) (increment : Option Expr)
    (body : Stmt) (span : Span) :
    (meaningOfFor start condition increment body span).moved move =
      meaningOfFor (movedOptionalStmt move start) (condition.moved move)
        (increment.map (Expr.moved move)) (body.moved move) (move span) := by
  rw [← movedOptionalExpr_eq_map]
  cases start <;> rfl

/-- The condition of a loop, or the one that stands in its place. -/
theorem moved_getD (condition : Option Expr) (missing : Expr) :
    (condition.getD missing).moved move =
      (condition.map (Expr.moved move)).getD (missing.moved move) := by
  cases condition <;> rfl

/-- Moved tokens mean the moved tree. -/
theorem Derives.moved {phrase : Phrase} {tokens : List Token} {tree : phrase.Tree}
    (derives : Derives phrase tokens tree) :
    Derives phrase (tokens.map (Token.moved move)) (phrase.moved move tree) := by
  induction derives with
  | operation _ inner => exact .operation inner
  | assignVariable _ sign _ place source =>
      rw [List.map_append, List.map_cons]
      exact .assignVariable place sign source
  | assignProperty _ sign _ place source =>
      rw [List.map_append, List.map_cons]
      exact .assignProperty place sign source
  | tighter _ inner => exact .tighter inner
  | joined _ sign _ left right =>
      rw [List.map_append, List.map_cons]
      simp only [Phrase.moved, moved_operationOf]
      exact .joined left sign right
  | prefixed sign _ inner => exact .prefixed sign inner
  | operand _ inner => exact .operand inner
  | primary _ inner => exact .primary inner
  | call _ opens _ closes called given =>
      simp only [List.map_append, List.map_cons, List.map_nil]
      simp only [Phrase.moved] at given ⊢
      rw [Expr.moved, movedExprs_eq_map]
      exact .call called opens given closes
  | property _ sign identifier owner =>
      rw [List.map_append]
      exact .property owner sign identifier
  | constant sign => exact .constant sign
  | reference identifier => exact .reference identifier
  | this sign => exact .this sign
  | super sign point identifier => exact .super sign point identifier
  | grouping opens _ closes inner =>
      simp only [List.map_append, List.map_cons, List.map_nil]
      exact .grouping opens inner closes
  | lambda sign _ rest => exact .lambda sign rest
  | parameter identifier => exact .parameter identifier
  | function opens _ closes _ named body =>
      simp only [List.map_append, List.map_cons]
      exact .function opens named closes body
  | body opens _ closes inner =>
      simp only [List.map_append, List.map_cons, List.map_nil]
      simp only [Phrase.moved] at inner ⊢
      rw [movedStmts_eq_map]
      exact .body opens inner closes
  | method identifier _ rest => exact .method identifier rest
  | getter identifier _ body => exact .getter identifier body
  | noInitializer => exact .noInitializer
  | initializer sign _ inner => exact .initializer sign inner
  | varDeclaration sign identifier _ ends inner =>
      simp only [List.map_append, List.map_cons, List.map_nil]
      exact .varDeclaration sign identifier inner ends
  | ofVariable _ inner => exact .ofVariable inner
  | ofFunction sign identifier _ rest => exact .ofFunction sign identifier rest
  | ofClass sign identifier clause opens _ closes inner =>
      simp only [List.map_append, List.map_cons, List.map_nil]
      simp only [Phrase.moved] at inner ⊢
      rw [Stmt.moved, movedFunctions_eq_map]
      exact .ofClass sign identifier (clause.moved move) opens inner closes
  | ofStatement _ inner => exact .ofStatement inner
  | expressionStatement _ ends inner =>
      simp only [List.map_append, List.map_cons, List.map_nil]
      exact .expressionStatement inner ends
  | ofExpression _ inner => exact .ofExpression inner
  | print sign _ ends inner =>
      simp only [List.map_append, List.map_cons, List.map_nil]
      exact .print sign inner ends
  | «return» sign _ ends inner =>
      simp only [List.map_append, List.map_cons, List.map_nil]
      simp only [Phrase.moved] at inner ⊢
      rw [Stmt.moved, movedOptionalExpr_eq_map]
      exact .return sign inner ends
  | «break» sign ends => exact .break sign ends
  | «continue» sign ends => exact .continue sign ends
  | block _ inner => exact .block inner
  | conditional sign opens _ closes _ test chosen =>
      simp only [List.map_append, List.map_cons]
      exact .conditional sign opens test closes chosen
  | conditionalElse sign opens _ closes _ elseSign _ test chosen other =>
      simp only [List.map_append, List.map_cons]
      exact .conditionalElse sign opens test closes chosen elseSign other
  | whileLoop sign opens _ closes _ test repeated =>
      simp only [List.map_append, List.map_cons]
      exact .whileLoop sign opens test closes repeated
  | startAbsent ends => exact .startAbsent ends
  | startVariable _ inner => exact .startVariable inner
  | startExpression _ inner => exact .startExpression inner
  | forLoop sign opens _ _ ends _ closes _ starts test steps repeated =>
      simp only [List.map_append, List.map_cons]
      simp only [Phrase.moved, moved_meaningOfFor, moved_getD] at test steps ⊢
      exact .forLoop sign opens starts test ends steps closes repeated
  | none item => exact .none item
  | some _ inner => exact .some inner
  | done item => exact .done item
  | again _ _ first others =>
      rw [List.map_append]
      exact .again first others
  | last _ inner => exact .last inner
  | comma _ separates _ first others =>
      rw [List.map_append, List.map_cons]
      exact .comma first separates others
  | empty item => exact .empty item
  | list _ short inner => exact .list inner (by rwa [Phrase.moved, List.length_map])

end Moved

/-! ## Two parts -/

/-- Declarations behind declarations are declarations. -/
theorem Derives.append {left right : List Token} {first second : List Stmt}
    (former : Derives (.repeated .declaration) left first)
    (latter : Derives (.repeated .declaration) right second) :
    Derives (.repeated .declaration) (left ++ right) (first ++ second) := by
  induction first generalizing left with
  | nil =>
      obtain ⟨rfl, _⟩ | ⟨_, _, _, _, _, impossible, _⟩ := former.declarations_cases
      · exact latter
      · cases impossible
  | cons stmt rest inductionHypothesis =>
      obtain ⟨_, impossible⟩ | ⟨own, behind, _, _, rfl, same, derives, others⟩ :=
        former.declarations_cases
      · cases impossible
      · obtain ⟨rfl, rfl⟩ := List.cons.inj same
        rw [List.append_assoc]
        exact .again derives (inductionHypothesis others)

/-- Before the end mark, what is left out are the comments. -/
theorem Text.tokens_of_unmarked {tokens : List Token} {mark : Token}
    (unmarked : ∀ token ∈ tokens, token.kind.isEnd = false) (ends : mark.kind = .endOfSource) :
    (Text.of (tokens ++ [mark])).tokens = Token.withoutComments tokens := by
  have isEnd : mark.kind.isEnd = true := by rw [ends]; rfl
  have kept : Token.withoutComments [mark] = [mark] := by
    have notComment : mark.kind.isComment = false := by rw [ends]; rfl
    simp [Token.withoutComments, notComment]
  have apart : Token.withoutComments (tokens ++ [mark]) =
      Token.withoutComments tokens ++ [mark] := by
    simp only [Token.withoutComments, List.filter_append] at kept ⊢
    rw [kept]
  simp only [Text.of, apart]
  rw [List.takeWhile_append_of_pos]
  · simp [isEnd]
  · intro token member
    simp [unmarked token (List.mem_filter.mp member).1]

/-- A program is read exactly where the grammar has it, among comments. -/
theorem ofTokens_eq_ok_iff {tokens : List Token} {mark : Token} {program : Program}
    (unmarked : ∀ token ∈ tokens, token.kind.isEnd = false) (ends : mark.kind = .endOfSource) :
    Program.ofTokens (tokens ++ [mark]) = .ok program ↔
      Derives (.repeated .declaration) (Token.withoutComments tokens) program.statements := by
  have bounded : 4 * (Token.withoutComments tokens).length ≤
      boundFor (Token.withoutComments tokens) + 1 := by
    unfold boundFor
    omega
  simp only [Program.ofTokens, Text.tokens_of_unmarked unmarked ends]
  constructor
  · intro accepted
    split at accepted
    · next noComplaint =>
        obtain rfl := Except.ok.inj accepted
        exact derives_of_declarations _ (Nat.le_refl _) noComplaint
    · cases accepted
  · intro derives
    rw [declarations_of_derives _ derives (Nat.le_refl _) bounded]

end Grammar

open Grammar

/-- Two programs one after the other, the second at other places, are one program. -/
theorem Program.ofTokens_append (move : Span → Span) {left right : List Token}
    {mark later : Token} {first second : Program}
    (unmarkedLeft : ∀ token ∈ left, token.kind.isEnd = false) (ends : mark.kind = .endOfSource)
    (unmarkedRight : ∀ token ∈ right, token.kind.isEnd = false)
    (endsLater : later.kind = .endOfSource)
    (readFirst : Program.ofTokens (left ++ [mark]) = .ok first)
    (readSecond : Program.ofTokens (right ++ [later]) = .ok second) :
    Program.ofTokens (left ++ (right ++ [later]).map (Token.moved move)) =
      .ok ⟨first.statements ++ (second.moved move).statements⟩ := by
  have former := (ofTokens_eq_ok_iff unmarkedLeft ends).mp readFirst
  have latter := ((ofTokens_eq_ok_iff unmarkedRight endsLater).mp readSecond).moved move
  have statements : (Phrase.repeated .declaration).moved move second.statements =
      (second.moved move).statements :=
    (movedStmts_eq_map move second.statements).symm
  have comments : (Token.withoutComments right).map (Token.moved move) =
      Token.withoutComments (right.map (Token.moved move)) := by
    simp [Token.withoutComments, List.filter_map, Function.comp_def, Token.moved]
  have both := former.append latter
  rw [statements, comments, Token.withoutComments, Token.withoutComments,
    ← List.filter_append] at both
  have unmarked : ∀ token ∈ left ++ right.map (Token.moved move), token.kind.isEnd = false := by
    intro token member
    obtain member | member := List.mem_append.mp member
    · exact unmarkedLeft token member
    · obtain ⟨original, among, rfl⟩ := List.mem_map.mp member
      exact unmarkedRight original among
  have endsMoved : (later.moved move).kind = .endOfSource := endsLater
  rw [List.map_append, ← List.append_assoc]
  exact (ofTokens_eq_ok_iff unmarked endsMoved).mpr both

end Lox
