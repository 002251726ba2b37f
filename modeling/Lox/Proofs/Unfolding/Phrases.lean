import Mathlib.Data.List.Forall2
import Lox.Proofs.Grammar.Exactness
import Lox.Proofs.Unfolding.Tree

/-!
Contract: a `for` statement of a program, replaced by another statement.

Wherever the word `for` stands in a phrase, a statement begins there. If a statement that means the
same, but that more loops are written out, is put in its place, the tokens are a phrase of the same
sort that means the same in this way. The new statement must not be dangling; so no `else` that
stands behind it can become a part of it.

Main statement: `Derives.replace`.

Owns: meanings of phrases compared, replacements in them. Does not own: by what a loop is replaced.
-/

set_option autoImplicit false

namespace Lox

/-! ## Sequences -/

theorem ExprsUnfold.of_forall₂ {exprs others : List Expr}
    (unfold : List.Forall₂ Expr.Unfolds exprs others) : ExprsUnfold exprs others := by
  induction unfold with
  | nil => exact .nil
  | cons unfolds _ inductionHypothesis => exact .cons unfolds inductionHypothesis

theorem StmtsUnfold.of_forall₂ {stmts others : List Stmt}
    (unfold : List.Forall₂ Stmt.Unfolds stmts others) : StmtsUnfold stmts others := by
  induction unfold with
  | nil => exact .nil
  | cons unfolds _ inductionHypothesis => exact .cons unfolds inductionHypothesis

theorem FunctionsUnfold.of_forall₂ {functions others : List FunctionDeclaration}
    (unfold : List.Forall₂ FunctionUnfolds functions others) : FunctionsUnfold functions others := by
  induction unfold with
  | nil => exact .nil
  | cons unfolds _ inductionHypothesis => exact .cons unfolds inductionHypothesis

theorem OptionalExprUnfolds.of_rel {expr other : Option Expr}
    (unfolds : Option.Rel Expr.Unfolds expr other) : OptionalExprUnfolds expr other := by
  cases unfolds with
  | none => exact .none
  | some unfolds => exact .some unfolds

namespace Grammar

open Lox.Parser

/-! ## Meanings of phrases -/

/-- What the other phrase means is the same but for spans and loops that are written out. -/
@[reducible] def Phrase.Unfolds : (phrase : Phrase) → phrase.Tree → phrase.Tree → Prop
  | .expression => Expr.Unfolds
  | .operation _ => Expr.Unfolds
  | .call => Expr.Unfolds
  | .primary => Expr.Unfolds
  | .parameter => fun name other => other.text = name.text
  | .function => fun tree other =>
      other.1.map Name.text = tree.1.map Name.text ∧ StmtsUnfold tree.2 other.2
  | .body => StmtsUnfold
  | .method => FunctionUnfolds
  | .initializer => OptionalExprUnfolds
  | .varDeclaration => Stmt.Unfolds
  | .expressionStatement => Stmt.Unfolds
  | .forStart => OptionalStmtUnfolds
  | .statement _ => Stmt.Unfolds
  | .declaration => Stmt.Unfolds
  | .optional item => Option.Rel item.Unfolds
  | .repeated item => List.Forall₂ item.Unfolds
  | .separated item => List.Forall₂ item.Unfolds
  | .list item => List.Forall₂ item.Unfolds

/-- Whether sequences are made of phrases of this sort. -/
def Phrase.isItem : Phrase → Bool
  | .expression | .parameter | .method | .declaration => true
  | _ => false

/-- What sequences are made of is a sort of items. -/
def Phrase.Regular : Phrase → Prop
  | .optional item | .repeated item | .separated item | .list item => item.isItem = true
  | _ => True

/-- Whether the phrase may end in an `if` that lacks its `else`. -/
def Phrase.dangles : Phrase → Bool
  | .statement dangling => dangling
  | .declaration => true
  | .optional item | .repeated item | .separated item | .list item => item.dangles
  | _ => false

section Items

variable {item : Phrase} (isItem : item.isItem = true)
include isItem

theorem regular_of_isItem : item.Regular := by
  cases item <;> trivial

theorem unfolds_refl_of_isItem (tree : item.Tree) : item.Unfolds tree tree := by
  cases item with
  | expression => exact .refl tree
  | parameter => rfl
  | method => exact .refl tree
  | declaration => exact .refl tree
  | _ => cases isItem

theorem forall₂_unfolds_refl (trees : List item.Tree) :
    List.Forall₂ item.Unfolds trees trees :=
  List.forall₂_same.mpr fun tree _ => unfolds_refl_of_isItem isItem tree

/-- The items of a sequence that may dangle are declarations, and none begins with an `else`. -/
theorem Derives.avoids_else_of_dangles {tokens : List Token} {trees : List item.Tree}
    (derives : Derives (.repeated item) tokens trees) (dangles : item.dangles = true) :
    Avoids (·.isKeyword .else) tokens := by
  cases item with
  | declaration => exact derives.avoids_else
  | expression => cases dangles
  | parameter => cases dangles
  | method => cases dangles
  | _ => cases isItem

end Items

/-- The tokens are such a phrase, no more dangling than this one, and mean the same but for loops
that are written out. -/
@[reducible] def Phrase.Becomes : (phrase : Phrase) → phrase.Tree → List Token → Prop
  | .statement dangling, tree, tokens => ∃ (still : Bool) (other : Stmt),
      (still = true → dangling = true) ∧ Derives (.statement still) tokens other ∧
        tree.Unfolds other
  | phrase, tree, tokens => ∃ other, Derives phrase tokens other ∧ phrase.Unfolds tree other

theorem becomes_of_isItem {item : Phrase} (isItem : item.isItem = true) {tree : item.Tree}
    {tokens : List Token} (becomes : item.Becomes tree tokens) :
    ∃ other, Derives item tokens other ∧ item.Unfolds tree other := by
  cases item <;> first | exact becomes | cases isItem

theorem becomes_closed_iff {tree : Stmt} {tokens : List Token} :
    Phrase.Becomes (.statement false) tree tokens ↔
      ∃ other, Derives (.statement false) tokens other ∧ tree.Unfolds other := by
  constructor
  · rintro ⟨still, other, closed, derives, unfolds⟩
    cases still with
    | true => cases closed rfl
    | false => exact ⟨other, derives, unfolds⟩
  · rintro ⟨other, derives, unfolds⟩
    exact ⟨false, other, id, derives, unfolds⟩

theorem sameTexts {names others : List Name}
    (same : List.Forall₂ (fun name other => other.text = name.text) names others) :
    others.map Name.text = names.map Name.text := by
  induction same with
  | nil => rfl
  | cons here _ inductionHypothesis => simp [here, inductionHypothesis]

theorem unfolds_operationOf {left left' right right' : Expr} {span span' : Span}
    (connective : Connective) (unfoldsLeft : left.Unfolds left')
    (unfoldsRight : right.Unfolds right') :
    (operationOf left span right connective).Unfolds (operationOf left' span' right' connective) := by
  cases connective with
  | logical operator => exact .logical unfoldsLeft unfoldsRight
  | binary operator => exact .binary unfoldsLeft unfoldsRight

theorem unfolds_meaningOfFor {start start' : Option Stmt} {condition condition' : Expr}
    {increment increment' : Option Expr} {body body' : Stmt} {span : Span}
    (unfoldsStart : OptionalStmtUnfolds start start')
    (unfoldsCondition : condition.Unfolds condition')
    (unfoldsIncrement : OptionalExprUnfolds increment increment')
    (unfoldsBody : body.Unfolds body') :
    (meaningOfFor start condition increment body span).Unfolds
      (meaningOfFor start' condition' increment' body' span) := by
  have loop : (Stmt.loop condition body increment span).Unfolds
      (.loop condition' body' increment' span) :=
    .loop unfoldsCondition unfoldsBody unfoldsIncrement
  cases unfoldsStart with
  | none => exact loop
  | some unfolds => exact .block (.cons unfolds (.cons loop .nil))

theorem unfolds_getD {condition condition' : Option Expr} (missing : Expr)
    (unfolds : Option.Rel Expr.Unfolds condition condition') :
    (condition.getD missing).Unfolds (condition'.getD missing) := by
  cases unfolds with
  | none => exact .refl missing
  | some unfolds => exact unfolds

/-! ## Replacements -/

/-- Wherever the word `for` stands among the tokens a statement begins; a dangling one is at the
end only where something may dangle there. If it is replaced by a statement that is not dangling
and means the same but for loops that are written out, the predicate holds of the tokens. -/
def Replaceable (Result : List Token → Prop) (dangles : Bool) (tokens : List Token) : Prop :=
  ∀ front word back, tokens = front ++ word :: back → word.kind = .keyword .for →
    ∃ dangling clauses rest statement, back = clauses ++ rest ∧
      Derives (.statement dangling) (word :: clauses) statement ∧
      (dangling = true → Avoids (·.isKeyword .else) rest ∧ (rest = [] → dangles = true)) ∧
      ∀ closed other, Derives (.statement false) closed other → statement.Unfolds other →
        Result (front ++ (closed ++ rest))

namespace Replaceable

variable {Result Weaker : List Token → Prop} {dangles inner outer : Bool}
  {tokens left right : List Token} {token : Token}

theorem mono (replaceable : Replaceable Result inner tokens)
    (weaken : ∀ tokens, Result tokens → Weaker tokens) (ends : inner = true → outer = true) :
    Replaceable Weaker outer tokens := by
  intro front word back same sign
  obtain ⟨dangling, clauses, rest, statement, parts, derives, dangle, replace⟩ :=
    replaceable front word back same sign
  exact ⟨dangling, clauses, rest, statement, parts, derives,
    fun isDangling => ⟨(dangle isDangling).1, fun last => ends ((dangle isDangling).2 last)⟩,
    fun closed other there unfolds => weaken _ (replace closed other there unfolds)⟩

theorem into (replaceable : Replaceable Result dangles tokens)
    (weaken : ∀ tokens, Result tokens → Weaker tokens) : Replaceable Weaker dangles tokens :=
  replaceable.mono weaken id

theorem nil : Replaceable Result dangles [] := by
  intro front word back same
  simp at same

theorem cons (notLoop : token.kind ≠ .keyword .for)
    (others : Replaceable (fun tokens => Result (token :: tokens)) dangles tokens) :
    Replaceable Result dangles (token :: tokens) := by
  intro front word back same sign
  cases front with
  | nil =>
      obtain ⟨rfl, _⟩ := List.cons.inj same
      exact absurd sign notLoop
  | cons first front =>
      obtain ⟨rfl, behind⟩ := List.cons.inj same
      exact others front word back behind sign

/-- At the word itself the statement is all there is. -/
theorem loop {dangling : Bool} {statement : Stmt}
    (derives : Derives (.statement dangling) (token :: tokens) statement)
    (replace : ∀ closed other, Derives (.statement false) closed other →
      statement.Unfolds other → Result closed)
    (others : Replaceable (fun tokens => Result (token :: tokens)) dangling tokens) :
    Replaceable Result dangling (token :: tokens) := by
  intro front word back same sign
  cases front with
  | nil =>
      obtain ⟨rfl, rfl⟩ := List.cons.inj same
      refine ⟨dangling, tokens, [], statement, (List.append_nil _).symm, derives,
        fun isDangling => ⟨avoids_nil _, fun _ => isDangling⟩, fun closed other there unfolds => ?_⟩
      rw [List.nil_append, List.append_nil]
      exact replace closed other there unfolds
  | cons first front =>
      obtain ⟨rfl, behind⟩ := List.cons.inj same
      exact others front word back behind sign

theorem append (first : Replaceable (fun tokens => Result (tokens ++ right)) inner left)
    (second : Replaceable (fun tokens => Result (left ++ tokens)) dangles right)
    (avoids : inner = true → Avoids (·.isKeyword .else) right)
    (ends : inner = true → right = [] → dangles = true) :
    Replaceable Result dangles (left ++ right) := by
  intro front word back same sign
  obtain ⟨more, rfl, behind⟩ | ⟨more, rfl, behind⟩ := List.append_eq_append_iff.mp same
  · -- The word stands in the second part.
    obtain ⟨dangling, clauses, rest, statement, parts, derives, dangle, replace⟩ :=
      second more word back behind sign
    refine ⟨dangling, clauses, rest, statement, parts, derives, dangle,
      fun closed other there unfolds => ?_⟩
    rw [List.append_assoc]
    exact replace closed other there unfolds
  · cases more with
    | nil =>
        -- The word is the first one of the second part.
        obtain ⟨dangling, clauses, rest, statement, parts, derives, dangle, replace⟩ :=
          second [] word back behind.symm sign
        refine ⟨dangling, clauses, rest, statement, parts, derives, dangle,
          fun closed other there unfolds => ?_⟩
        have result := replace closed other there unfolds
        rwa [List.append_nil, List.nil_append] at result
    | cons head more =>
        -- The word stands in the first part.
        obtain ⟨rfl, rfl⟩ := List.cons.inj behind
        obtain ⟨dangling, clauses, rest, statement, rfl, derives, dangle, replace⟩ :=
          first front word more rfl sign
        refine ⟨dangling, clauses, rest ++ right, statement, List.append_assoc _ _ _, derives,
          fun isDangling => ?_, fun closed other there unfolds => ?_⟩
        · obtain ⟨noElse, last⟩ := dangle isDangling
          cases rest with
          | nil => exact ⟨avoids (last rfl), ends (last rfl)⟩
          | cons next others => exact ⟨by simpa using noElse, by simp⟩
        · have result := replace closed other there unfolds
          simpa only [List.append_assoc] using result

/-- Behind a part in which nothing dangles there may be anything. -/
theorem appendClosed (first : Replaceable (fun tokens => Result (tokens ++ right)) false left)
    (second : Replaceable (fun tokens => Result (left ++ tokens)) dangles right) :
    Replaceable Result dangles (left ++ right) :=
  append first second (by simp) (by simp)

/-- A part in which nothing dangles stands between two tokens, and others stand behind. -/
theorem between {opening closing : Token} (opens : opening.kind ≠ .keyword .for)
    (part : Replaceable (fun tokens => Result (opening :: (tokens ++ closing :: right))) false left)
    (closes : closing.kind ≠ .keyword .for)
    (others : Replaceable (fun tokens => Result (opening :: (left ++ closing :: tokens))) dangles
      right) :
    Replaceable Result dangles (opening :: (left ++ closing :: right)) :=
  cons opens (appendClosed part (cons closes others))

end Replaceable

/-- In an item of a sequence an item is replaced. -/
theorem Replaceable.item {item : Phrase} (isItem : item.isItem = true) {tree : item.Tree}
    {dangles : Bool} {tokens : List Token}
    (replaceable : Replaceable (item.Becomes tree) dangles tokens) :
    Replaceable (fun tokens => ∃ other, Derives item tokens other ∧ item.Unfolds tree other)
      dangles tokens :=
  replaceable.into fun _ => becomes_of_isItem isItem

/-! ## Words that begin no loop -/

theorem Infix.ne_for {level : Level} {kind : Token.Kind} {connective : Connective}
    (sign : Infix level kind connective) : kind ≠ .keyword .for := by
  cases sign <;> simp

theorem Prefixed.ne_for {kind : Token.Kind} {operator : UnaryOperator}
    (sign : Prefixed kind operator) : kind ≠ .keyword .for := by
  cases sign <;> simp

theorem Constant.ne_for {kind : Token.Kind} {value : Literal} (sign : Constant kind value) :
    kind ≠ .keyword .for := by
  cases sign <;> simp

/-- Only a word is an `else`. -/
theorem avoids_else_of_symbol {token : Token} {tokens : List Token} {sign : Symbol}
    (isSymbol : token.kind = .symbol sign) : Avoids (·.isKeyword .else) (token :: tokens) := by
  rw [avoids_cons, isSymbol]
  rfl

theorem Inheritance.replaceable {tokens : List Token} {superclass : Option Reference}
    (clause : Inheritance tokens superclass) (Result : List Token → Prop) :
    Replaceable Result false tokens := by
  cases clause with
  | absent => exact .nil
  | present mark parent less identifier =>
      exact .cons (by simp [less]) (.cons (by simp [identifier]) .nil)

/-! ## Phrases -/

/-- Of a `for` statement the parts are replaced, or it is itself. -/
theorem Replaceable.forLoop {dangling : Bool} {word opening semicolon closing : Token}
    {first second third tokens : List Token} {start : Option Stmt}
    {condition increment : Option Expr} {body : Stmt} (sign : word.kind = .keyword .for)
    (opens : opening.kind = .symbol .leftParen) (starts : Derives .forStart first start)
    (test : Derives (.optional .expression) second condition)
    (ends : semicolon.kind = .symbol .semicolon)
    (steps : Derives (.optional .expression) third increment)
    (closes : closing.kind = .symbol .rightParen)
    (repeated : Derives (.statement dangling) tokens body)
    (inStarts : Replaceable (Phrase.Becomes .forStart start) false first)
    (inTest : Replaceable (Phrase.Becomes (.optional .expression) condition) false second)
    (inSteps : Replaceable (Phrase.Becomes (.optional .expression) increment) false third)
    (inRepeated : Replaceable (Phrase.Becomes (.statement dangling) body) dangling tokens) :
    Replaceable
      (Phrase.Becomes (.statement dangling) (meaningOfFor start
        (condition.getD (.literal (.boolean true) semicolon.span)) increment body word.span))
      dangling
      (word :: opening :: (first ++ (second ++ semicolon :: (third ++ closing :: tokens)))) := by
  have whole := Derives.forLoop sign opens starts test ends steps closes repeated
  refine .loop whole (fun _ _ there unfolds => ⟨false, _, by simp, there, unfolds⟩) ?_
  refine .cons (by simp [opens]) (.appendClosed ?inStart (.appendClosed ?inCondition
    (.between (by simp [ends]) ?inIncrement (by simp [closes]) ?inBody)))
  case inStart =>
    exact inStarts.into fun _ ⟨_, derives, unfolds⟩ =>
      ⟨_, _, id, .forLoop sign opens derives test ends steps closes repeated,
        unfolds_meaningOfFor unfolds (.refl _) (.refl _) (.refl _)⟩
  case inCondition =>
    exact inTest.into fun _ ⟨_, derives, unfolds⟩ =>
      ⟨_, _, id, .forLoop sign opens starts derives ends steps closes repeated,
        unfolds_meaningOfFor (.refl _) (unfolds_getD _ unfolds) (.refl _) (.refl _)⟩
  case inIncrement =>
    exact inSteps.into fun _ ⟨_, derives, unfolds⟩ =>
      ⟨_, _, id, .forLoop sign opens starts test ends derives closes repeated,
        unfolds_meaningOfFor (.refl _) (.refl _) (.of_rel unfolds) (.refl _)⟩
  case inBody =>
    exact inRepeated.into fun _ ⟨_, _, still, derives, unfolds⟩ =>
      ⟨_, _, still, .forLoop sign opens starts test ends steps closes derives,
        unfolds_meaningOfFor (.refl _) (.refl _) (.refl _) unfolds⟩

/-- In every phrase the statements that begin with the word `for` may be replaced. -/
theorem Derives.replaceable {phrase : Phrase} {tokens : List Token} {tree : phrase.Tree}
    (derives : Derives phrase tokens tree) (regular : phrase.Regular) :
    Replaceable (phrase.Becomes tree) phrase.dangles tokens := by
  induction derives with
  -- Expressions.
  | operation _ inner =>
      exact (inner trivial).into fun _ ⟨_, derives, unfolds⟩ => ⟨_, .operation derives, unfolds⟩
  | assignVariable place sign source inPlace inSource =>
      refine .appendClosed ((inPlace trivial).into fun _ ⟨other, derives, unfolds⟩ => ?_)
        (.cons (by simp [sign]) ((inSource trivial).into fun _ ⟨_, derives, unfolds⟩ =>
          ⟨_, .assignVariable place sign derives, .assign rfl unfolds⟩))
      cases unfolds with
      | «variable» same => exact ⟨_, .assignVariable derives sign source, .assign same (.refl _)⟩
  | assignProperty place sign source inPlace inSource =>
      refine .appendClosed ((inPlace trivial).into fun _ ⟨other, derives, unfolds⟩ => ?_)
        (.cons (by simp [sign]) ((inSource trivial).into fun _ ⟨_, derives, unfolds⟩ =>
          ⟨_, .assignProperty place sign derives, .set (.refl _) rfl unfolds⟩))
      cases unfolds with
      | get unfolds same =>
          exact ⟨_, .assignProperty derives sign source, .set unfolds same (.refl _)⟩
  | tighter _ inner =>
      exact (inner trivial).into fun _ ⟨_, derives, unfolds⟩ => ⟨_, .tighter derives, unfolds⟩
  | joined leftOperand sign rightOperand inLeft inRight =>
      exact .appendClosed
        ((inLeft trivial).into fun _ ⟨_, derives, unfolds⟩ =>
          ⟨_, .joined derives sign rightOperand, unfolds_operationOf _ unfolds (.refl _)⟩)
        (.cons sign.ne_for ((inRight trivial).into fun _ ⟨_, derives, unfolds⟩ =>
          ⟨_, .joined leftOperand sign derives, unfolds_operationOf _ (.refl _) unfolds⟩))
  | prefixed sign _ inner =>
      exact .cons sign.ne_for ((inner trivial).into fun _ ⟨_, derives, unfolds⟩ =>
        ⟨_, .prefixed sign derives, .unary unfolds⟩)
  | operand _ inner =>
      exact (inner trivial).into fun _ ⟨_, derives, unfolds⟩ => ⟨_, .operand derives, unfolds⟩
  | primary _ inner =>
      exact (inner trivial).into fun _ ⟨_, derives, unfolds⟩ => ⟨_, .primary derives, unfolds⟩
  | call called opens given closes inCalled inGiven =>
      exact .appendClosed
        ((inCalled trivial).into fun _ ⟨_, derives, unfolds⟩ =>
          ⟨_, .call derives opens given closes, .call unfolds (.refl _)⟩)
        (.between (by simp [opens])
          ((inGiven rfl).into fun _ ⟨_, derives, unfold⟩ =>
            ⟨_, .call called opens derives closes, .call (.refl _) (.of_forall₂ unfold)⟩)
          (by simp [closes]) .nil)
  | property _ sign identifier inOwner =>
      exact .appendClosed
        ((inOwner trivial).into fun _ ⟨_, derives, unfolds⟩ =>
          ⟨_, .property derives sign identifier, .get unfolds rfl⟩)
        (.cons (by simp [sign]) (.cons (by simp [identifier]) .nil))
  | constant sign => exact .cons sign.ne_for .nil
  | reference identifier => exact .cons (by simp [identifier]) .nil
  | this sign => exact .cons (by simp [sign]) .nil
  | super sign point identifier =>
      exact .cons (by simp [sign]) (.cons (by simp [point]) (.cons (by simp [identifier]) .nil))
  | grouping opens _ closes inner =>
      exact .between (by simp [opens])
        ((inner trivial).into fun _ ⟨_, derives, unfolds⟩ =>
          ⟨_, .grouping opens derives closes, .grouping unfolds⟩)
        (by simp [closes]) .nil
  | lambda sign _ inRest =>
      exact .cons (by simp [sign]) ((inRest trivial).into fun _ ⟨(_, _), derives, same, unfold⟩ =>
        ⟨_, .lambda sign derives, .lambda (.mk rfl same unfold)⟩)
  -- Functions and their parts.
  | parameter identifier => exact .cons (by simp [identifier]) .nil
  | function opens named closes body inNamed inBody =>
      exact .between (by simp [opens])
        ((inNamed rfl).into fun _ ⟨_, derives, same⟩ =>
          ⟨_, .function opens derives closes body, sameTexts same, .refl _⟩)
        (by simp [closes])
        ((inBody trivial).into fun _ ⟨_, derives, unfold⟩ =>
          ⟨_, .function opens named closes derives, rfl, unfold⟩)
  | body opens _ closes inner =>
      -- What may dangle stands before a brace, not before an `else`.
      exact .cons (by simp [opens]) (.append
        ((inner rfl).into fun _ ⟨_, derives, unfold⟩ =>
          ⟨_, .body opens derives closes, .of_forall₂ unfold⟩)
        (.cons (by simp [closes]) .nil) (fun _ => avoids_else_of_symbol closes) (by simp))
  | method identifier _ inRest =>
      exact .cons (by simp [identifier]) ((inRest trivial).into
        fun _ ⟨(_, _), derives, same, unfold⟩ =>
          ⟨_, .method identifier derives, .mk rfl same unfold⟩)
  | getter identifier _ inBody =>
      exact .cons (by simp [identifier]) ((inBody trivial).into fun _ ⟨_, derives, unfold⟩ =>
        ⟨_, .getter identifier derives, .mk rfl rfl unfold⟩)
  -- Declarations, which may dangle where their statements do.
  | noInitializer => exact .nil
  | initializer sign _ inner =>
      exact .cons (by simp [sign]) ((inner trivial).into fun _ ⟨_, derives, unfolds⟩ =>
        ⟨_, .initializer sign derives, .some unfolds⟩)
  | varDeclaration sign identifier _ ends inner =>
      exact .cons (by simp [sign]) (.between (by simp [identifier])
        ((inner trivial).into fun _ ⟨_, derives, unfolds⟩ =>
          ⟨_, .varDeclaration sign identifier derives ends, .var rfl unfolds⟩)
        (by simp [ends]) .nil)
  | ofVariable _ inner =>
      exact (inner trivial).mono (fun _ ⟨_, derives, unfolds⟩ => ⟨_, .ofVariable derives, unfolds⟩)
        fun _ => rfl
  | ofFunction sign identifier _ inRest =>
      exact .cons (by simp [sign]) (.cons (by simp [identifier]) ((inRest trivial).mono
        (fun _ ⟨(_, _), derives, same, unfold⟩ =>
          ⟨_, .ofFunction sign identifier derives, .function (.mk rfl same unfold)⟩)
        fun _ => rfl))
  | ofClass sign identifier clause opens _ closes inner =>
      exact .cons (by simp [sign]) (.cons (by simp [identifier]) (.appendClosed
        (clause.replaceable _)
        (.between (by simp [opens])
          ((inner rfl).into fun _ ⟨_, derives, unfold⟩ =>
            ⟨_, .ofClass sign identifier clause opens derives closes,
              .class rfl rfl (.of_forall₂ unfold)⟩)
          (by simp [closes]) .nil)))
  | ofStatement _ inner =>
      exact (inner trivial).mono
        (fun _ ⟨_, _, _, derives, unfolds⟩ => ⟨_, .ofStatement derives, unfolds⟩) fun _ => rfl
  -- Statements.
  | expressionStatement _ ends inner =>
      refine .appendClosed ((inner trivial).into fun _ ⟨_, derives, unfolds⟩ => ?_)
        (.cons (by simp [ends]) .nil)
      obtain ⟨first, others, rfl, _⟩ := derives.begins
      exact ⟨_, .expressionStatement derives ends, .expression unfolds⟩
  | ofExpression _ inner =>
      exact (inner trivial).into fun _ ⟨_, derives, unfolds⟩ =>
        becomes_closed_iff.mpr ⟨_, .ofExpression derives, unfolds⟩
  | print sign _ ends inner =>
      exact .between (by simp [sign])
        ((inner trivial).into fun _ ⟨_, derives, unfolds⟩ =>
          becomes_closed_iff.mpr ⟨_, .print sign derives ends, .print unfolds⟩)
        (by simp [ends]) .nil
  | «return» sign _ ends inner =>
      exact .between (by simp [sign])
        ((inner rfl).into fun _ ⟨_, derives, unfolds⟩ =>
          becomes_closed_iff.mpr ⟨_, .return sign derives ends, .return (.of_rel unfolds)⟩)
        (by simp [ends]) .nil
  | «break» sign ends => exact .cons (by simp [sign]) (.cons (by simp [ends]) .nil)
  | «continue» sign ends => exact .cons (by simp [sign]) (.cons (by simp [ends]) .nil)
  | block _ inner =>
      refine (inner trivial).into fun _ ⟨_, derives, unfold⟩ => ?_
      cases derives with
      | body opens derives closes =>
          exact becomes_closed_iff.mpr ⟨_, .block (.body opens derives closes), .block unfold⟩
  | conditional sign opens test closes chosen inTest inChosen =>
      exact .cons (by simp [sign]) (.between (by simp [opens])
        ((inTest trivial).into fun _ ⟨_, derives, unfolds⟩ =>
          ⟨true, _, id, .conditional sign opens derives closes chosen,
            .conditional unfolds (.refl _) .none⟩)
        (by simp [closes])
        ((inChosen trivial).mono
          (fun _ ⟨_, _, _, derives, unfolds⟩ =>
            ⟨true, _, id, .conditional sign opens test closes derives,
              .conditional (.refl _) unfolds .none⟩)
          fun _ => rfl))
  | conditionalElse sign opens test closes chosen elseSign other inTest inChosen inOther =>
      exact .cons (by simp [sign]) (.between (by simp [opens])
        ((inTest trivial).into fun _ ⟨_, derives, unfolds⟩ =>
          ⟨_, _, id, .conditionalElse sign opens derives closes chosen elseSign other,
            .conditional unfolds (.refl _) (.refl _)⟩)
        (by simp [closes])
        (.appendClosed
          ((inChosen trivial).into fun _ becomes =>
            have ⟨_, derives, unfolds⟩ := becomes_closed_iff.mp becomes
            ⟨_, _, id, .conditionalElse sign opens test closes derives elseSign other,
              .conditional (.refl _) unfolds (.refl _)⟩)
          (.cons (by simp [elseSign]) ((inOther trivial).into
            fun _ ⟨_, _, still, derives, unfolds⟩ =>
              ⟨_, _, still, .conditionalElse sign opens test closes chosen elseSign derives,
                .conditional (.refl _) (.refl _) (.some unfolds)⟩))))
  | whileLoop sign opens test closes repeated inTest inRepeated =>
      exact .cons (by simp [sign]) (.between (by simp [opens])
        ((inTest trivial).into fun _ ⟨_, derives, unfolds⟩ =>
          ⟨_, _, id, .whileLoop sign opens derives closes repeated,
            .loop unfolds (.refl _) .none⟩)
        (by simp [closes])
        ((inRepeated trivial).into fun _ ⟨_, _, still, derives, unfolds⟩ =>
          ⟨_, _, still, .whileLoop sign opens test closes derives,
            .loop (.refl _) unfolds .none⟩))
  | startAbsent ends => exact .cons (by simp [ends]) .nil
  | startVariable _ inner =>
      exact (inner trivial).into fun _ ⟨_, derives, unfolds⟩ =>
        ⟨_, .startVariable derives, .some unfolds⟩
  | startExpression _ inner =>
      exact (inner trivial).into fun _ ⟨_, derives, unfolds⟩ =>
        ⟨_, .startExpression derives, .some unfolds⟩
  | forLoop sign opens starts test ends steps closes repeated inStarts inTest inSteps inRepeated =>
      exact .forLoop sign opens starts test ends steps closes repeated (inStarts trivial)
        (inTest rfl) (inSteps rfl) (inRepeated trivial)
  -- Sequences, whose items are put in one by one.
  | none item => exact .nil
  | some _ inner =>
      exact ((inner (regular_of_isItem regular)).item regular).into fun _ ⟨_, derives, unfolds⟩ =>
        ⟨_, .some derives, .some unfolds⟩
  | done item => exact .nil
  | again first others inFirst inOthers =>
      exact .append
        (((inFirst (regular_of_isItem regular)).item regular).into fun _ ⟨_, derives, unfolds⟩ =>
          ⟨_, .again derives others, .cons unfolds (forall₂_unfolds_refl regular _)⟩)
        ((inOthers regular).into fun _ ⟨_, derives, unfold⟩ =>
          ⟨_, .again first derives, .cons (unfolds_refl_of_isItem regular _) unfold⟩)
        (others.avoids_else_of_dangles regular) fun dangles _ => dangles
  | last _ inner =>
      exact ((inner (regular_of_isItem regular)).item regular).into fun _ ⟨_, derives, unfolds⟩ =>
        ⟨_, .last derives, .cons unfolds .nil⟩
  | comma first separates others inFirst inOthers =>
      exact .append
        (((inFirst (regular_of_isItem regular)).item regular).into fun _ ⟨_, derives, unfolds⟩ =>
          ⟨_, .comma derives separates others, .cons unfolds (forall₂_unfolds_refl regular _)⟩)
        (.cons (by simp [separates]) ((inOthers regular).into fun _ ⟨_, derives, unfold⟩ =>
          ⟨_, .comma first separates derives, .cons (unfolds_refl_of_isItem regular _) unfold⟩))
        (fun _ => avoids_else_of_symbol separates) (by simp)
  | empty item => exact .nil
  | list _ short inner =>
      exact (inner regular).into fun _ ⟨_, derives, unfold⟩ =>
        ⟨_, .list derives (unfold.length_eq ▸ short), unfold⟩

/-! ## Programs -/

/-- Where a statement begins it is read in one way only, if no `else` is left behind that it could
take up. -/
theorem Derives.unique_statement {dangling dangling' : Bool}
    {tokens tokens' rest rest' : List Token} {tree tree' : Stmt} (derives : Derives (.statement dangling) tokens tree)
    (derives' : Derives (.statement dangling') tokens' tree')
    (same : tokens ++ rest = tokens' ++ rest')
    (avoids : dangling = true → Avoids (·.isKeyword .else) rest)
    (avoids' : dangling' = true → Avoids (·.isKeyword .else) rest') :
    tokens = tokens' ∧ tree = tree' ∧ rest = rest' := by
  let bound := 4 * (tokens.length + tokens'.length)
  have reads := derives.readable bound rest (by omega) avoids
  have reads' := derives'.readable bound rest' (by omega) avoids'
  rw [same] at reads
  obtain ⟨trees, rests⟩ := reads.unique reads'
  subst rests
  exact ⟨List.append_cancel_right same, trees, rfl⟩

/-- A statement of a program that begins with the word `for` is replaced by one that is not
dangling and means the same but for loops that are written out. -/
theorem Derives.replace {front tokens rest closed : List Token} {word : Token} {stmts : List Stmt}
    {dangling : Bool} {statement other : Stmt}
    (derives : Derives (.repeated .declaration) (front ++ (word :: tokens ++ rest)) stmts)
    (sign : word.kind = .keyword .for)
    (here : Derives (.statement dangling) (word :: tokens) statement)
    (avoids : dangling = true → Avoids (·.isKeyword .else) rest)
    (there : Derives (.statement false) closed other) (unfolds : statement.Unfolds other) :
    ∃ others, Derives (.repeated .declaration) (front ++ (closed ++ rest)) others ∧
      StmtsUnfold stmts others := by
  obtain ⟨dangling', clauses, rest', statement', parts, derives', dangle, replace⟩ :=
    derives.replaceable rfl front word (tokens ++ rest) rfl sign
  have same : word :: tokens ++ rest = word :: clauses ++ rest' := congrArg (List.cons word) parts
  obtain ⟨_, rfl, rfl⟩ :=
    here.unique_statement derives' same avoids fun isDangling => (dangle isDangling).1
  obtain ⟨others, derivesOthers, unfold⟩ := replace closed other there unfolds
  exact ⟨others, derivesOthers, .of_forall₂ unfold⟩

end Grammar

end Lox
