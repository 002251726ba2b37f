import Lox.Proofs.Grammar.Derivation
import Lox.Proofs.Grammar.Exactness

/-!
Contract: phrases close what they open.

Each rule of the grammar that has an opening bracket has the closing one too. So every
phrase has as many of the one as of the other.

Main statement: `Derives.balance_eq_zero`.

Owns: how far tokens open brackets. Does not own: characters.
-/

set_option autoImplicit false

namespace Lox

/-- How far a token of this kind opens brackets. -/
def Token.Kind.balance : Token.Kind → Int
  | .symbol .leftParen | .symbol .leftBrace => 1
  | .symbol .rightParen | .symbol .rightBrace => -1
  | _ => 0

/-- Whether a token of this kind is an opening bracket. -/
def Token.Kind.opensBracket (kind : Token.Kind) : Bool :=
  kind.isSymbol .leftParen || kind.isSymbol .leftBrace

/-- Whether a token of this kind is a closing bracket. -/
def Token.Kind.closesBracket (kind : Token.Kind) : Bool :=
  kind.isSymbol .rightParen || kind.isSymbol .rightBrace

theorem Token.Kind.balance_eq (kind : Token.Kind) :
    kind.balance = kind.opensBracket.toInt - kind.closesBracket.toInt := by
  cases kind with
  | symbol sign => cases sign <;> rfl
  | _ => rfl

/-- How many more brackets the tokens open than they close. -/
def balanceOf : List Token → Int
  | [] => 0
  | token :: rest => token.kind.balance + balanceOf rest

@[simp] theorem balanceOf_nil : balanceOf [] = 0 := rfl

@[simp] theorem balanceOf_cons (token : Token) (tokens : List Token) :
    balanceOf (token :: tokens) = token.kind.balance + balanceOf tokens := rfl

@[simp] theorem balanceOf_append (left right : List Token) :
    balanceOf (left ++ right) = balanceOf left + balanceOf right := by
  induction left with
  | nil => simp
  | cons token rest inductionHypothesis => simp [inductionHypothesis, Int.add_assoc]

/-- What is open is counted by the opening brackets and the closing ones. -/
theorem balanceOf_eq_countP (tokens : List Token) :
    balanceOf tokens = (tokens.countP (·.kind.opensBracket) : Int) -
      (tokens.countP (·.kind.closesBracket) : Int) := by
  induction tokens with
  | nil => rfl
  | cons token rest inductionHypothesis =>
      rw [balanceOf_cons, inductionHypothesis, Token.Kind.balance_eq, List.countP_cons,
        List.countP_cons]
      cases token.kind.opensBracket <;> cases token.kind.closesBracket <;>
        simp only [Bool.toInt, cond_true, cond_false, if_true, if_false, Bool.false_eq_true] <;>
        omega

/-- Comments open nothing. -/
@[simp] theorem balanceOf_withoutComments (tokens : List Token) :
    balanceOf (Token.withoutComments tokens) = balanceOf tokens := by
  induction tokens with
  | nil => rfl
  | cons token rest inductionHypothesis =>
      unfold Token.withoutComments at inductionHypothesis ⊢
      rw [List.filter_cons, balanceOf_cons]
      cases comment : token.kind.isComment with
      | false => simp [inductionHypothesis]
      | true =>
          have opensNothing : token.kind.balance = 0 := by
            unfold Token.Kind.isComment at comment
            split at comment
            · next isComment =>
                rw [isComment]
                rfl
            · cases comment
          simp [opensNothing, inductionHypothesis]

namespace Grammar

theorem Infix.balance_eq_zero {level : Level} {kind : Token.Kind} {connective : Connective}
    (sign : Infix level kind connective) : kind.balance = 0 := by
  cases sign <;> rfl

theorem Prefixed.balance_eq_zero {kind : Token.Kind} {operator : UnaryOperator}
    (sign : Prefixed kind operator) : kind.balance = 0 := by
  cases sign <;> rfl

theorem Constant.balance_eq_zero {kind : Token.Kind} {value : Literal}
    (sign : Constant kind value) : kind.balance = 0 := by
  cases sign <;> rfl

theorem Inheritance.balance_eq_zero {tokens : List Token} {superclass : Option Reference}
    (clause : Inheritance tokens superclass) : balanceOf tokens = 0 := by
  cases clause with
  | absent => rfl
  | present mark parent less identifier => simp [less, identifier, Token.Kind.balance]

/-- A phrase closes as many brackets as it opens. -/
theorem Derives.balance_eq_zero {phrase : Phrase} {tokens : List Token} {tree : phrase.Tree}
    (derives : Derives phrase tokens tree) : balanceOf tokens = 0 := by
  induction derives with
  -- Rules without brackets of their own.
  | assignVariable _ sign _ place source | assignProperty _ sign _ place source =>
      simp [sign, place, source, Token.Kind.balance]
  | joined _ sign _ left right => simp [sign.balance_eq_zero, left, right]
  | prefixed sign _ inner => simp [sign.balance_eq_zero, inner]
  | property _ sign identifier owner => simp [sign, identifier, owner, Token.Kind.balance]
  | constant sign => simp [sign.balance_eq_zero]
  | reference identifier | parameter identifier => simp [identifier, Token.Kind.balance]
  | this sign => simp [sign, Token.Kind.balance]
  | super sign point identifier => simp [sign, point, identifier, Token.Kind.balance]
  | lambda sign _ rest => simp [sign, rest, Token.Kind.balance]
  | method identifier _ rest | getter identifier _ rest =>
      simp [identifier, rest, Token.Kind.balance]
  | initializer sign _ inner => simp [sign, inner, Token.Kind.balance]
  | varDeclaration sign identifier _ ends inner =>
      simp [sign, identifier, ends, inner, Token.Kind.balance]
  | ofFunction sign identifier _ rest => simp [sign, identifier, rest, Token.Kind.balance]
  | expressionStatement _ ends inner =>
      have closes : Token.Kind.balance (.symbol .semicolon) = 0 := rfl
      rw [← List.cons_append, balanceOf_append, inner]
      simp [ends, closes]
  | print sign _ ends inner | «return» sign _ ends inner =>
      simp [sign, ends, inner, Token.Kind.balance]
  | «break» sign ends | «continue» sign ends => simp [sign, ends, Token.Kind.balance]
  | startAbsent ends => simp [ends, Token.Kind.balance]
  | again _ _ first others => simp [first, others]
  | comma _ separates _ first others => simp [separates, first, others, Token.Kind.balance]
  -- Rules with a pair of brackets.
  | call _ opens _ closes called given => simp [opens, closes, called, given, Token.Kind.balance]
  | grouping opens _ closes inner | body opens _ closes inner =>
      simp [opens, closes, inner, Token.Kind.balance]
  | function opens _ closes _ named body => simp [opens, closes, named, body, Token.Kind.balance]
  | ofClass sign identifier clause opens _ closes inner =>
      simp [sign, identifier, clause.balance_eq_zero, opens, closes, inner, Token.Kind.balance]
  | conditional sign opens _ closes _ test chosen | whileLoop sign opens _ closes _ test chosen =>
      simp [sign, opens, closes, test, chosen, Token.Kind.balance]
  | conditionalElse sign opens _ closes _ elseSign _ test chosen other =>
      simp [sign, opens, closes, test, chosen, elseSign, other, Token.Kind.balance]
  | forLoop sign opens _ _ ends _ closes _ starts test steps repeated =>
      simp [sign, opens, ends, closes, starts, test, steps, repeated, Token.Kind.balance]
  -- Rules that pass on what another one has.
  | noInitializer | none | done | empty => rfl
  | operation _ inner | tighter _ inner | operand _ inner | primary _ inner | ofVariable _ inner
  | ofStatement _ inner | ofExpression _ inner | block _ inner | startVariable _ inner
  | startExpression _ inner | some _ inner | last _ inner | list _ _ inner => exact inner

end Grammar

end Lox
