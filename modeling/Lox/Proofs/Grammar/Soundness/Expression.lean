import Lox.Grammar.Statement
import Lox.Proofs.Grammar.Derivation
import Lox.Proofs.Grammar.Reads

/-!
Contract: what is read as an expression is derivable.

Each rule of the grammar of expressions has one lemma: if the parsers that the rule
nests read only phrases of their sort, then so does the rule. Repetitions, lists
and functions are treated here too, for any sort of item.

Owns: `Sound`, and soundness of every rule for expressions. Does not own: statements,
and the induction that ties the rules together.
-/

set_option autoImplicit false

namespace Lox.Grammar

open Lox.Parser

/-- Whatever the parser reads is a phrase of this sort. -/
def Sound (phrase : Phrase) (parser : Parser phrase.Tree) : Prop :=
  ∀ ⦃tokens rest : List Token⦄ ⦃tree : phrase.Tree⦄, parser.Reads tokens tree rest →
    ∃ consumed, tokens = consumed ++ rest ∧ Derives phrase consumed tree

/-! ## Tokens -/

theorem infix_of_connective? {level : Level} {kind : Token.Kind} {connective : Connective}
    (meant : level.connective? kind = some connective) : Infix level kind connective := by
  unfold Level.connective? at meant
  split at meant <;> first
    | (cases meant; constructor)
    | cases meant

theorem prefixed_of_unaryOperator? {kind : Token.Kind} {operator : UnaryOperator}
    (meant : unaryOperator? kind = some operator) : Prefixed kind operator := by
  unfold unaryOperator? at meant
  split at meant <;> first
    | (cases meant; constructor)
    | cases meant

@[simp] theorem join_eq_operationOf (left right : Expr) (span : Span) (connective : Connective) :
    connective.join left span right = operationOf left span right connective := by
  cases connective <;> rfl

theorem name_sound (role : String) : Sound .parameter (name role) := by
  intro tokens rest tree reads
  simp only [reads_name] at reads
  obtain ⟨token, rfl, identifier, rfl⟩ := reads
  exact ⟨[token], rfl, .parameter identifier⟩

/-! ## Sequences -/

section Sequences

variable {item : Phrase} {parser : Parser item.Tree}

theorem itemsUntil_sound (stop : Token.Kind → Bool) (sound : Sound item parser) (bound : Nat) :
    Sound (.repeated item) (itemsUntil stop parser bound) := by
  induction bound with
  | zero =>
      intro tokens rest trees reads
      simp [itemsUntil] at reads
  | succ bound inductionHypothesis =>
      intro tokens rest trees reads
      simp only [itemsUntil, reads_bind, reads_atEnd, reads_sees] at reads
      obtain ⟨ended, _, ⟨rfl, rfl⟩, seen, _, ⟨rfl, rfl⟩, reads⟩ := reads
      split at reads
      · obtain ⟨rfl, rfl⟩ := reads_pure.mp reads
        exact ⟨[], rfl, .done item⟩
      · simp only [reads_bind, reads_pure] at reads
        obtain ⟨first, middle, readsFirst, others, _, readsOthers, rfl, rfl⟩ := reads
        obtain ⟨left, rfl, derivesFirst⟩ := sound readsFirst
        obtain ⟨right, rfl, derivesOthers⟩ := inductionHypothesis readsOthers
        exact ⟨left ++ right, (List.append_assoc ..).symm, .again derivesFirst derivesOthers⟩

theorem itemsByComma_sound (things : String) (sound : Sound item parser) (bound count : Nat)
    {tokens rest : List Token} {trees : List item.Tree}
    (reads : (itemsByComma things parser bound count).Reads tokens trees rest) :
    ∃ consumed, tokens = consumed ++ rest ∧ Derives (.separated item) consumed trees ∧
      count + trees.length ≤ 255 := by
  induction bound generalizing count tokens trees with
  | zero => simp [itemsByComma] at reads
  | succ bound inductionHypothesis =>
      rw [itemsByComma] at reads
      split at reads
      · simp at reads
      · next room =>
          have short : count < 255 := Nat.lt_of_not_le room
          simp only [reads_bind, reads_optionalSymbol] at reads
          obtain ⟨first, middle, readsFirst, sign, after,
            (⟨comma, rfl, separates, rfl⟩ | ⟨_, rfl, rfl⟩), readsOthers⟩ := reads
          · simp only [reads_bind, reads_pure] at readsOthers
            obtain ⟨others, _, readsOthers, rfl, rfl⟩ := readsOthers
            obtain ⟨left, rfl, derivesFirst⟩ := sound readsFirst
            obtain ⟨right, rfl, derivesOthers, fits⟩ :=
              inductionHypothesis (count + 1) readsOthers
            refine ⟨left ++ comma :: right, by simp, .comma derivesFirst separates derivesOthers,
              ?_⟩
            simp only [List.length_cons]
            omega
          · obtain ⟨rfl, rfl⟩ := reads_pure.mp readsOthers
            obtain ⟨left, rfl, derivesFirst⟩ := sound readsFirst
            exact ⟨left, rfl, .last derivesFirst, short⟩

theorem parenthesizedItems_sound (things : String) (sound : Sound item parser) (bound : Nat)
    {tokens rest : List Token} {trees : List item.Tree} {closing : Token}
    (reads : (parenthesizedItems things parser bound).Reads tokens (trees, closing) rest) :
    ∃ between, tokens = between ++ closing :: rest ∧ Derives (.list item) between trees ∧
      closing.kind = .symbol .rightParen := by
  simp only [parenthesizedItems, reads_bind, reads_sees] at reads
  obtain ⟨seen, _, ⟨rfl, rfl⟩, reads⟩ := reads
  split at reads
  · simp only [reads_bind, reads_pure, reads_symbol, Prod.mk.injEq] at reads
    obtain ⟨_, _, ⟨rfl, rfl⟩, _, _, ⟨rfl, closes⟩, ⟨rfl, rfl⟩, rfl⟩ := reads
    exact ⟨[], rfl, .empty item, closes⟩
  · simp only [reads_bind, reads_pure, reads_symbol, Prod.mk.injEq] at reads
    obtain ⟨_, _, readsItems, _, _, ⟨rfl, closes⟩, ⟨rfl, rfl⟩, rfl⟩ := reads
    obtain ⟨between, rfl, derives, short⟩ := itemsByComma_sound things sound bound 0 readsItems
    exact ⟨between, rfl, .list derives (by omega), closes⟩

end Sequences

/-! ## Expressions -/

theorem operands_sound {level : Level} {levels : List Level} {operand : Parser Expr}
    (sound : Sound (.operation levels) operand) (bound : Nat) {left tokens rest : List Token}
    {first tree : Expr} (derivesFirst : Derives (.operation (level :: levels)) left first)
    (reads : (operands level operand bound first).Reads tokens tree rest) :
    ∃ consumed, tokens = consumed ++ rest ∧
      Derives (.operation (level :: levels)) (left ++ consumed) tree := by
  induction bound generalizing left first tokens with
  | zero => simp [operands] at reads
  | succ bound inductionHypothesis =>
      simp only [operands, reads_bind, reads_optionalAs] at reads
      obtain ⟨sign, after, (⟨operator, connective, rfl, meant, rfl⟩ | ⟨_, rfl, rfl⟩), reads⟩ :=
        reads
      · simp only [reads_bind, join_eq_operationOf] at reads
        obtain ⟨second, middle, readsSecond, readsOthers⟩ := reads
        obtain ⟨right, rfl, derivesSecond⟩ := sound readsSecond
        have joined := Derives.joined derivesFirst (infix_of_connective? meant) derivesSecond
        obtain ⟨more, rfl, derives⟩ := inductionHypothesis joined readsOthers
        exact ⟨operator :: (right ++ more), by simp, by simpa using derives⟩
      · obtain ⟨rfl, rfl⟩ := reads_pure.mp reads
        exact ⟨[], rfl, by simpa using derivesFirst⟩

theorem operations_sound {tightest : Parser Expr} (sound : Sound (.operation []) tightest)
    (bound : Nat) (levels : List Level) :
    Sound (.operation levels) (operations bound tightest levels) := by
  induction levels with
  | nil => exact sound
  | cons level levels inductionHypothesis =>
      intro tokens rest tree reads
      simp only [operations, reads_bind] at reads
      obtain ⟨first, middle, readsFirst, readsOthers⟩ := reads
      obtain ⟨left, rfl, derivesFirst⟩ := inductionHypothesis readsFirst
      obtain ⟨more, rfl, derives⟩ :=
        operands_sound inductionHypothesis bound (.tighter derivesFirst) readsOthers
      exact ⟨left ++ more, (List.append_assoc ..).symm, derives⟩

theorem assignment_sound {left value : Parser Expr}
    (soundLeft : Sound (.operation Level.all) left) (soundValue : Sound .expression value) :
    Sound .expression (assignment left value) := by
  intro tokens rest tree reads
  simp only [assignment, reads_bind, reads_optionalSymbol] at reads
  obtain ⟨target, middle, readsTarget, sign, after, (⟨equals, rfl, isEqual, rfl⟩ | ⟨_, rfl, rfl⟩),
    reads⟩ := reads
  · simp only [reads_bind] at reads
    obtain ⟨source, last, readsSource, reads⟩ := reads
    obtain ⟨before, rfl, derivesTarget⟩ := soundLeft readsTarget
    obtain ⟨behind, rfl, derivesSource⟩ := soundValue readsSource
    refine ⟨before ++ equals :: behind, ?_, ?_⟩ <;> split at reads
    · obtain ⟨_, rfl⟩ := reads_pure.mp reads
      simp
    · obtain ⟨_, rfl⟩ := reads_pure.mp reads
      simp
    · simp at reads
    · obtain ⟨rfl, _⟩ := reads_pure.mp reads
      exact .assignVariable derivesTarget isEqual derivesSource
    · obtain ⟨rfl, _⟩ := reads_pure.mp reads
      exact .assignProperty derivesTarget isEqual derivesSource
    · simp at reads
  · obtain ⟨rfl, rfl⟩ := reads_pure.mp reads
    obtain ⟨before, rfl, derivesTarget⟩ := soundLeft readsTarget
    exact ⟨before, rfl, .operation derivesTarget⟩

theorem prefixed_sound {operand tighter : Parser Expr} (soundOperand : Sound (.operation []) operand)
    (soundTighter : Sound .call tighter) : Sound (.operation []) (prefixed operand tighter) := by
  intro tokens rest tree reads
  simp only [prefixed, reads_bind, reads_optionalAs] at reads
  obtain ⟨sign, after, (⟨token, operator, rfl, meant, rfl⟩ | ⟨_, rfl, rfl⟩), reads⟩ := reads
  · simp only [reads_bind, reads_pure] at reads
    obtain ⟨inner, _, readsInner, rfl, rfl⟩ := reads
    obtain ⟨behind, rfl, derives⟩ := soundOperand readsInner
    exact ⟨token :: behind, rfl, .prefixed (prefixed_of_unaryOperator? meant) derives⟩
  · obtain ⟨consumed, rfl, derives⟩ := soundTighter reads
    exact ⟨consumed, rfl, .operand derives⟩

theorem suffixes_sound {argument : Parser Expr} (sound : Sound .expression argument) (bound : Nat)
    {left tokens rest : List Token} {head tree : Expr} (derivesHead : Derives .call left head)
    (reads : (suffixes argument bound head).Reads tokens tree rest) :
    ∃ consumed, tokens = consumed ++ rest ∧ Derives .call (left ++ consumed) tree := by
  induction bound generalizing left head tokens with
  | zero => simp [suffixes] at reads
  | succ bound inductionHypothesis =>
      simp only [suffixes, reads_bind, reads_optionalSymbol] at reads
      obtain ⟨sign, after, (⟨opening, rfl, opens, rfl⟩ | ⟨_, rfl, rfl⟩), reads⟩ := reads
      · simp only [reads_bind] at reads
        obtain ⟨⟨arguments, closing⟩, middle, readsItems, readsOthers⟩ := reads
        obtain ⟨between, rfl, derivesItems, closes⟩ :=
          parenthesizedItems_sound "arguments" sound bound readsItems
        have called := Derives.call derivesHead opens derivesItems closes
        obtain ⟨more, rfl, derives⟩ := inductionHypothesis called readsOthers
        exact ⟨opening :: (between ++ closing :: more), by simp, by simpa using derives⟩
      · simp only [reads_bind, reads_optionalSymbol] at reads
        obtain ⟨sign, after, (⟨dot, rfl, point, rfl⟩ | ⟨_, rfl, rfl⟩), reads⟩ := reads
        · simp only [reads_bind, reads_require, isIdentifier_iff] at reads
          obtain ⟨word, middle, ⟨rfl, identifier⟩, readsOthers⟩ := reads
          have selected := Derives.property derivesHead point identifier
          obtain ⟨more, rfl, derives⟩ := inductionHypothesis selected readsOthers
          exact ⟨dot :: word :: more, by simp, by simpa using derives⟩
        · obtain ⟨rfl, rfl⟩ := reads_pure.mp reads
          exact ⟨[], rfl, by simpa using derivesHead⟩

theorem suffixed_sound {head argument : Parser Expr} (soundHead : Sound .primary head)
    (soundArgument : Sound .expression argument) (bound : Nat) :
    Sound .call (suffixed head argument bound) := by
  intro tokens rest tree reads
  simp only [suffixed, reads_bind] at reads
  obtain ⟨first, middle, readsFirst, readsOthers⟩ := reads
  obtain ⟨left, rfl, derivesFirst⟩ := soundHead readsFirst
  obtain ⟨more, rfl, derives⟩ :=
    suffixes_sound soundArgument bound (.primary derivesFirst) readsOthers
  exact ⟨left ++ more, (List.append_assoc ..).symm, derives⟩

/-! ## Functions -/

section Functions

variable {item : Parser Stmt}

theorem functionBody_sound (role : String) (sound : Sound .declaration item) (bound : Nat) :
    Sound .body (functionBody role item bound) := by
  intro tokens rest tree reads
  simp only [functionBody, blockRest, reads_bind, reads_symbol, reads_pure] at reads
  obtain ⟨opening, _, ⟨rfl, opens⟩, statements, _, readsItems, closing, _, ⟨rfl, closes⟩, rfl, rfl⟩ :=
    reads
  obtain ⟨between, rfl, derives⟩ := itemsUntil_sound _ sound bound readsItems
  exact ⟨opening :: (between ++ [closing]), by simp, .body opens derives closes⟩

theorem parameters_sound (bound : Nat) {tokens rest : List Token} {found : List Name}
    (reads : (parameters bound).Reads tokens found rest) :
    ∃ between closing, tokens = between ++ closing :: rest ∧
      Derives (.list .parameter) between found ∧ closing.kind = .symbol .rightParen := by
  simp only [parameters, reads_bind, reads_pure] at reads
  obtain ⟨⟨names, closing⟩, _, readsItems, rfl, rfl⟩ := reads
  obtain ⟨between, rfl, derives, closes⟩ :=
    parenthesizedItems_sound "parameters" (name_sound "parameter") bound readsItems
  exact ⟨between, closing, rfl, derives, closes⟩

theorem function_sound {place role : String} (sound : Sound .declaration item) (bound : Nat)
    {tokens middle last rest : List Token} {opening : Token} {found : List Name}
    {statements : List Stmt} (readsOpening : (symbol .leftParen place).Reads tokens opening middle)
    (readsNames : (parameters bound).Reads middle found last)
    (readsBody : (functionBody role item bound).Reads last statements rest) :
    ∃ consumed, tokens = consumed ++ rest ∧ Derives .function consumed (found, statements) := by
  obtain ⟨rfl, opens⟩ := reads_symbol.mp readsOpening
  obtain ⟨between, closing, rfl, derivesNames, closes⟩ := parameters_sound bound readsNames
  obtain ⟨behind, rfl, derivesBody⟩ := functionBody_sound role sound bound readsBody
  exact ⟨opening :: (between ++ closing :: behind), by simp,
    .function opens derivesNames closes derivesBody⟩

theorem functionRest_sound (role : String) (declared : Name) (sound : Sound .declaration item)
    (bound : Nat) {tokens rest : List Token} {tree : FunctionDeclaration}
    (reads : (functionRest role declared item bound).Reads tokens tree rest) :
    ∃ consumed found statements, tokens = consumed ++ rest ∧
      Derives .function consumed (found, statements) ∧ tree = ⟨declared, found, statements, false⟩ := by
  simp only [functionRest, reads_bind, reads_pure] at reads
  obtain ⟨opening, _, readsOpening, found, _, readsNames, statements, _, readsBody, rfl, rfl⟩ := reads
  obtain ⟨consumed, rfl, derives⟩ := function_sound sound bound readsOpening readsNames readsBody
  exact ⟨consumed, found, statements, rfl, derives, rfl⟩

theorem lambdaRest_sound (word : Name) (sound : Sound .declaration item) (bound : Nat)
    {tokens rest : List Token} {tree : Expr}
    (reads : (lambdaRest word item bound).Reads tokens tree rest) :
    ∃ consumed found statements, tokens = consumed ++ rest ∧
      Derives .function consumed (found, statements) ∧
      tree = .lambda ⟨word, found, statements, false⟩ := by
  simp only [lambdaRest, reads_bind, reads_pure] at reads
  obtain ⟨opening, _, readsOpening, found, _, readsNames, statements, _, readsBody, rfl, rfl⟩ := reads
  obtain ⟨consumed, rfl, derives⟩ := function_sound sound bound readsOpening readsNames readsBody
  exact ⟨consumed, found, statements, rfl, derives, rfl⟩

theorem primary_sound {inner : Parser Expr} (soundInner : Sound .expression inner)
    (soundItem : Sound .declaration item) (bound : Nat) :
    Sound .primary (primary inner item bound) := by
  intro tokens rest tree reads
  simp only [primary, reads_bind, reads_peek] at reads
  obtain ⟨_, _, ⟨rfl, rfl⟩, reads⟩ := reads
  cases tokens with
  | nil => simp at reads
  | cons token tokens =>
      simp only [List.head?_cons] at reads
      split at reads
      -- The five constants come first.
      iterate 5
        · next kind =>
            simp only [reads_bind, reads_skip, reads_pure] at reads
            obtain ⟨_, _, ⟨rfl, rfl⟩, rfl, rfl⟩ := reads
            exact ⟨[token], rfl, .constant (by rw [kind]; constructor)⟩
      · next kind =>
          simp only [reads_bind, reads_skip, superRest, reads_symbol, reads_name, reads_pure] at reads
          obtain ⟨_, _, ⟨rfl, rfl⟩, dot, _, ⟨rfl, point⟩, _, _, ⟨method, rfl, identifier, rfl⟩, rfl,
            rfl⟩ := reads
          exact ⟨[token, dot, method], rfl, .super kind point identifier⟩
      · next kind =>
          simp only [reads_bind, reads_skip, reads_pure] at reads
          obtain ⟨_, _, ⟨rfl, rfl⟩, rfl, rfl⟩ := reads
          exact ⟨[token], rfl, .this kind⟩
      · next kind =>
          simp only [reads_bind, reads_skip, reads_pure] at reads
          obtain ⟨_, _, ⟨rfl, rfl⟩, rfl, rfl⟩ := reads
          exact ⟨[token], rfl, .reference kind⟩
      · next kind =>
          simp only [reads_bind, reads_skip, groupingRest, reads_symbol, reads_pure] at reads
          obtain ⟨_, _, ⟨rfl, rfl⟩, found, _, readsInner, closing, _, ⟨rfl, closes⟩, rfl, rfl⟩ :=
            reads
          obtain ⟨between, rfl, derives⟩ := soundInner readsInner
          exact ⟨token :: (between ++ [closing]), by simp, .grouping kind derives closes⟩
      · next kind =>
          simp only [reads_bind, reads_skip] at reads
          obtain ⟨_, _, ⟨rfl, rfl⟩, reads⟩ := reads
          obtain ⟨behind, found, statements, rfl, derives, rfl⟩ :=
            lambdaRest_sound _ soundItem bound reads
          exact ⟨token :: behind, rfl, .lambda kind derives⟩
      · simp at reads

end Functions

end Lox.Grammar
