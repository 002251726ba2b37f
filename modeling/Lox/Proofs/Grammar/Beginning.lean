import Lox.Proofs.Grammar.Derivation
import Lox.Proofs.Grammar.Reads

/-!
Contract: how phrases begin.

The first token of a phrase tells its sort, but for one case: the word `fun` begins
a lambda where a parenthesis follows and a declaration where a name does.

Owns: `Begins` and `Derives.begins`.
-/

set_option autoImplicit false

namespace Lox.Grammar

open Lox.Parser

/-- The tokens that can begin an expression. -/
def beginsExpression : Token.Kind → Bool
  | .symbol .leftParen | .symbol .bang | .symbol .minus => true
  | .keyword .false | .keyword .true | .keyword .nil => true
  | .keyword .this | .keyword .super | .keyword .fun => true
  | .identifier | .number _ | .string _ => true
  | _ => false

/-- The tokens that begin a statement other than an expression. -/
def beginsStatement : Token.Kind → Bool
  | .keyword .for | .keyword .if | .keyword .print | .keyword .return | .keyword .while => true
  | .keyword .break | .keyword .continue | .symbol .leftBrace => true
  | _ => false

/-- The tokens that begin a declaration, a statement included. -/
def beginsDeclaration (kind : Token.Kind) : Bool :=
  beginsExpression kind || beginsStatement kind || kind.isKeyword .class || kind.isKeyword .var

/-- The tokens begin as an expression does. -/
def BeginsExpression (tokens : List Token) : Prop :=
  ∃ first others, tokens = first :: others ∧ beginsExpression first.kind = true ∧
    (first.kind = .keyword .fun →
      ∃ second more, others = second :: more ∧ second.kind = .symbol .leftParen)

/-- The tokens begin with such a kind. -/
def BeginsWith (test : Token.Kind → Bool) (tokens : List Token) : Prop :=
  ∃ first others, tokens = first :: others ∧ test first.kind = true

/-- The tokens begin as an expression does that is no prefix operation. -/
def BeginsOperand (tokens : List Token) : Prop :=
  BeginsExpression tokens ∧ ∀ token ∈ tokens.head?, unaryOperator? token.kind = none

/-- How a phrase of this sort begins. -/
def Begins : Phrase → List Token → Prop
  | .expression | .operation _ | .expressionStatement => BeginsExpression
  | .call | .primary => BeginsOperand
  | .parameter | .method => BeginsWith (·.isIdentifier)
  | .function => BeginsWith (·.isSymbol .leftParen)
  | .body => BeginsWith (·.isSymbol .leftBrace)
  | .varDeclaration => BeginsWith (·.isKeyword .var)
  | .statement _ => fun tokens => BeginsExpression tokens ∨ BeginsWith beginsStatement tokens
  | .declaration => BeginsWith beginsDeclaration
  | _ => fun _ => True

theorem BeginsExpression.append {tokens : List Token} (begins : BeginsExpression tokens)
    (more : List Token) : BeginsExpression (tokens ++ more) := by
  obtain ⟨first, others, rfl, opens, lambda⟩ := begins
  refine ⟨first, others ++ more, rfl, opens, ?_⟩
  intro isFun
  obtain ⟨second, last, rfl, parenthesis⟩ := lambda isFun
  exact ⟨second, last ++ more, rfl, parenthesis⟩

/-- A token that begins an expression and is not the word `fun` settles how the
expression begins. -/
theorem beginsExpression_cons {first : Token} (others : List Token)
    (opens : beginsExpression first.kind = true) (notFun : first.kind ≠ .keyword .fun) :
    BeginsExpression (first :: others) :=
  ⟨first, others, rfl, opens, fun isFun => absurd isFun notFun⟩

theorem BeginsExpression.ne_nil {tokens : List Token} (begins : BeginsExpression tokens) :
    tokens ≠ [] := by
  obtain ⟨first, others, rfl, _⟩ := begins
  simp

theorem BeginsOperand.append {tokens : List Token} (begins : BeginsOperand tokens)
    (more : List Token) : BeginsOperand (tokens ++ more) := by
  obtain ⟨⟨first, others, rfl, opens⟩, noPrefix⟩ := begins
  exact ⟨BeginsExpression.append ⟨first, others, rfl, opens⟩ more, noPrefix⟩

theorem beginsOperand_cons {first : Token} (others : List Token)
    (opens : beginsExpression first.kind = true) (notFun : first.kind ≠ .keyword .fun)
    (noPrefix : unaryOperator? first.kind = none) : BeginsOperand (first :: others) :=
  ⟨beginsExpression_cons others opens notFun, by simpa using noPrefix⟩

/-- Every phrase begins as its sort does. -/
theorem Derives.begins {phrase : Phrase} {tokens : List Token} {tree : phrase.Tree}
    (derives : Derives phrase tokens tree) : Begins phrase tokens := by
  induction derives with
  | operation _ begins => exact begins
  | assignVariable _ _ _ begins _ => exact begins.append _
  | assignProperty _ _ _ begins _ => exact begins.append _
  | tighter _ begins => exact begins
  | joined _ _ _ begins _ => exact begins.append _
  | prefixed sign _ _ =>
      generalize kind : Token.kind _ = found at sign
      cases sign <;> exact beginsExpression_cons _ (by rw [kind]; rfl) (by simp [kind])
  | operand _ begins => exact begins.1
  | primary _ begins => exact begins
  | call _ _ _ _ begins _ => exact begins.append _
  | property _ _ _ begins => exact begins.append _
  | constant sign =>
      generalize kind : Token.kind _ = found at sign
      cases sign <;> exact beginsOperand_cons _ (by rw [kind]; rfl) (by simp [kind])
        (by rw [kind]; rfl)
  | reference identifier =>
      exact beginsOperand_cons _ (by rw [identifier]; rfl) (by simp [identifier])
        (by rw [identifier]; rfl)
  | this sign =>
      exact beginsOperand_cons _ (by rw [sign]; rfl) (by simp [sign]) (by rw [sign]; rfl)
  | super sign _ _ =>
      exact beginsOperand_cons _ (by rw [sign]; rfl) (by simp [sign]) (by rw [sign]; rfl)
  | grouping opens _ _ _ =>
      exact beginsOperand_cons _ (by rw [opens]; rfl) (by simp [opens]) (by rw [opens]; rfl)
  | @lambda word tokens _ _ sign _ begins =>
      obtain ⟨second, more, rfl, opens⟩ := begins
      refine ⟨⟨word, _, rfl, by rw [sign]; rfl, ?_⟩, by simp [sign, unaryOperator?]⟩
      exact fun _ => ⟨second, more, rfl, by simpa using opens⟩
  | parameter identifier => exact ⟨_, _, rfl, by rw [identifier]; rfl⟩
  | function opens _ _ _ _ _ => exact ⟨_, _, rfl, by rw [opens]; rfl⟩
  | body opens _ _ _ => exact ⟨_, _, rfl, by rw [opens]; rfl⟩
  | method identifier _ _ => exact ⟨_, _, rfl, by rw [identifier]; rfl⟩
  | getter identifier _ _ => exact ⟨_, _, rfl, by rw [identifier]; rfl⟩
  | varDeclaration sign _ _ _ _ => exact ⟨_, _, rfl, by rw [sign]; rfl⟩
  | ofVariable _ begins =>
      obtain ⟨first, others, rfl, isVar⟩ := begins
      rw [isKeyword_iff] at isVar
      exact ⟨first, others, rfl, by rw [isVar]; rfl⟩
  | ofFunction sign _ _ _ => exact ⟨_, _, rfl, by rw [sign]; rfl⟩
  | ofClass sign _ _ _ _ _ _ => exact ⟨_, _, rfl, by rw [sign]; rfl⟩
  | ofStatement _ begins =>
      obtain ⟨first, others, rfl, opens, _⟩ | ⟨first, others, rfl, opens⟩ := begins
      · exact ⟨first, others, rfl, by simp [beginsDeclaration, opens]⟩
      · exact ⟨first, others, rfl, by simp [beginsDeclaration, opens]⟩
  | expressionStatement _ _ begins => exact begins.append _
  | ofExpression _ begins => exact .inl begins
  | print sign _ _ _ => exact .inr ⟨_, _, rfl, by rw [sign]; rfl⟩
  | «return» sign _ _ _ => exact .inr ⟨_, _, rfl, by rw [sign]; rfl⟩
  | «break» sign _ => exact .inr ⟨_, _, rfl, by rw [sign]; rfl⟩
  | «continue» sign _ => exact .inr ⟨_, _, rfl, by rw [sign]; rfl⟩
  | block _ begins =>
      obtain ⟨first, others, same, opens⟩ := begins
      rw [isSymbol_iff] at opens
      exact .inr ⟨first, others, same, by rw [opens]; rfl⟩
  | conditional sign _ _ _ _ _ _ => exact .inr ⟨_, _, rfl, by rw [sign]; rfl⟩
  | conditionalElse sign _ _ _ _ _ _ _ _ _ => exact .inr ⟨_, _, rfl, by rw [sign]; rfl⟩
  | whileLoop sign _ _ _ _ _ _ => exact .inr ⟨_, _, rfl, by rw [sign]; rfl⟩
  | forLoop sign _ _ _ _ _ _ _ _ _ _ _ => exact .inr ⟨_, _, rfl, by rw [sign]; rfl⟩
  | _ => trivial

end Lox.Grammar
