import Lox.Grammar.Construct
import Lox.Proofs.Grammar.Beginning
import Lox.Proofs.Grammar.Soundness.Expression

/-!
Contract: derivable expressions are read, within bounds that suffice.

`Readable phrase tokens tree` says that the parser of the phrase reads exactly these
tokens as this tree wherever the token behind them cannot extend the phrase, and for
every bound that exceeds the tokens in the measure of four constructs for a token.
Levels of operators and chains of calls are stated in passing: what is behind the
phrase may go on with the same level or chain, and is read by the rest of the loop.

Owns: `Readable`, and the rules for expressions. Does not own: the induction over
derivations.
-/

set_option autoImplicit false

namespace Lox.Grammar

open Lox.Parser

/-! ## What may follow -/

/-- The next token extends no operand and no operation of these levels. -/
def Ends (levels : List Level) (rest : List Token) : Prop :=
  ∀ token ∈ rest.head?, token.kind.isSymbol .leftParen = false ∧
    token.kind.isSymbol .dot = false ∧ ∀ level ∈ levels, level.connective? token.kind = none

/-- The next token extends no expression. -/
def EndsExpression (rest : List Token) : Prop :=
  Ends Level.all rest ∧ Avoids (·.isSymbol .equal) rest

theorem Ends.tail {level : Level} {levels : List Level} {rest : List Token}
    (ends : Ends (level :: levels) rest) : Ends levels rest := by
  intro token member
  obtain ⟨notCall, notProperty, noConnective⟩ := ends token member
  exact ⟨notCall, notProperty, fun other within => noConnective other (.tail level within)⟩

theorem connective?_of_sign {level : Level} {kind : Token.Kind} {connective : Connective}
    (sign : Infix level kind connective) : level.connective? kind = some connective := by
  cases sign <;> rfl

/-- An operator belongs to one level only. -/
theorem connective?_eq_none_of_sign {level other : Level} {kind : Token.Kind}
    {connective : Connective} (sign : Infix level kind connective) (different : other ≠ level) :
    other.connective? kind = none := by
  cases sign <;> cases other <;> first
    | rfl
    | exact absurd rfl different

/-- An operator ends the operations of all other levels. -/
theorem ends_of_operator {level : Level} {levels : List Level} {operator : Token}
    {connective : Connective} (sign : Infix level operator.kind connective)
    (absent : level ∉ levels) (rest : List Token) : Ends levels (operator :: rest) := by
  intro token member
  obtain rfl : operator = token := by simpa using member
  refine ⟨?_, ?_, ?_⟩
  · generalize operator.kind = kind at sign
    cases sign <;> rfl
  · generalize operator.kind = kind at sign
    cases sign <;> rfl
  · intro other within
    exact connective?_eq_none_of_sign sign (fun same => absent (same ▸ within))

/-- The symbols behind which an expression is complete. -/
def closesExpression : Symbol → Bool
  | .semicolon | .rightParen | .comma => true
  | _ => false

theorem ends_of_symbol {token : Token} {sign : Symbol} (kind : token.kind = .symbol sign)
    (closes : closesExpression sign = true ∨ sign = .equal) (rest : List Token) :
    Ends Level.all (token :: rest) := by
  intro found member
  obtain rfl : token = found := by simpa using member
  rw [kind]
  obtain closes | rfl := closes
  · cases sign <;> first
      | exact absurd closes (by decide)
      | exact ⟨rfl, rfl, fun level _ => by cases level <;> rfl⟩
  · exact ⟨rfl, rfl, fun level _ => by cases level <;> rfl⟩

theorem endsExpression_of_symbol {token : Token} {sign : Symbol} (kind : token.kind = .symbol sign)
    (closes : closesExpression sign = true) (rest : List Token) :
    EndsExpression (token :: rest) := by
  refine ⟨ends_of_symbol kind (.inl closes) rest, ?_⟩
  rw [avoids_cons, kind]
  cases sign <;> first
    | rfl
    | exact absurd closes (by decide)

/-- No symbol that cannot begin an expression is seen where an expression begins. -/
theorem BeginsExpression.not_symbol {tokens : List Token} (begins : BeginsExpression tokens)
    {sign : Symbol} (cannot : beginsExpression (.symbol sign) = false) (rest : List Token) :
    ¬ ((tokens ++ rest).head?.any fun token => token.kind.isSymbol sign) = true := by
  obtain ⟨first, others, rfl, opens, _⟩ := begins
  intro seen
  have kind : first.kind = .symbol sign := by simpa using seen
  rw [kind, cannot] at opens
  cases opens

/-! ## Being read -/

/-- The tokens are read as an expression within every bound that suffices. -/
def ReadableExpression (tokens : List Token) (tree : Expr) : Prop :=
  ∀ bound rest, 4 * tokens.length ≤ bound + 1 → EndsExpression rest →
    (expression bound).Reads (tokens ++ rest) tree rest

/-- The tokens are read as an operation of these levels. What is behind them may go
on with operators of the loosest level, which the other rounds of its loop read. -/
def ReadableOperation (tokens : List Token) (tree : Expr) : List Level → Prop
  | [] => ∀ bound rest, 4 * tokens.length ≤ bound + 2 → Ends [] rest →
      (operand bound).Reads (tokens ++ rest) tree rest
  | level :: levels => ∀ bound rest, 4 * tokens.length ≤ bound + 2 → Ends levels rest →
      ∃ rounds, bound < rounds + tokens.length ∧ ∀ value last,
        (operands level (operations bound (operand bound) levels) rounds tree).Reads rest value last →
        (operations bound (operand bound) (level :: levels)).Reads (tokens ++ rest) value last

/-- The parser of primary expressions within a bound. -/
abbrev primaryWithin (bound : Nat) : Parser Expr :=
  primary (expression bound) (declaration bound) bound

/-- The tokens are read as a chain of calls and properties. What is behind them may
go on with the chain, which the other rounds of its loop read. -/
def ReadableCall (tokens : List Token) (tree : Expr) : Prop :=
  ∀ bound rest, 4 * tokens.length ≤ bound + 3 →
    ∃ rounds, bound < rounds + tokens.length ∧ ∀ value last,
      (suffixes (expression bound) rounds tree).Reads rest value last →
      (suffixed (primaryWithin bound) (expression bound) bound).Reads (tokens ++ rest) value last

/-- A parser reads every item of at most this size before what may follow it, and no
item begins as the end of the sequence does. -/
def ReadsItems (item : Phrase) (readable : List Token → item.Tree → Prop)
    (parser : Parser item.Tree) (size : Nat) (begins : Token.Kind → Bool)
    (follows : List Token → Prop) : Prop :=
  ∀ tokens tree, tokens.length ≤ size → Derives item tokens tree → readable tokens tree →
    BeginsWith begins tokens ∧ ∀ rest, follows rest → parser.Reads (tokens ++ rest) tree rest

/-- The next token separates or ends the items of a list. -/
def FollowsItem (rest : List Token) : Prop :=
  ∃ token others, rest = token :: others ∧
    (token.kind = .symbol .comma ∨ token.kind = .symbol .rightParen)

/-- The parsers of a phrase read these tokens as this tree, within bounds that suffice
and before tokens that do not extend the phrase. -/
def Readable : (phrase : Phrase) → List Token → phrase.Tree → Prop
  | .expression, tokens, tree => ReadableExpression tokens tree
  | .operation levels, tokens, tree => levels.Nodup → ReadableOperation tokens tree levels
  | .call, tokens, tree => ReadableCall tokens tree
  | .primary, tokens, tree => ∀ bound rest, 4 * tokens.length ≤ bound + 3 →
      (primaryWithin bound).Reads (tokens ++ rest) tree rest
  | .parameter, tokens, tree => ∀ role rest, (name role).Reads (tokens ++ rest) tree rest
  | .function, tokens, tree => ∀ bound rest place role, 4 * tokens.length ≤ bound + 3 →
      ∃ opening middle last, (symbol .leftParen place).Reads (tokens ++ rest) opening middle ∧
        (parameters bound).Reads middle tree.1 last ∧
        (functionBody role (declaration bound) bound).Reads last tree.2 rest
  | .body, tokens, tree => ∀ bound rest role, 4 * tokens.length ≤ bound + 3 →
      (functionBody role (declaration bound) bound).Reads (tokens ++ rest) tree rest
  | .method, tokens, tree => ∀ bound rest, 4 * tokens.length ≤ bound + 3 →
      (method (declaration bound) bound).Reads (tokens ++ rest) tree rest
  | .initializer, tokens, value =>
      (tokens = [] ∧ value = none) ∨
        ∃ equals others tree, tokens = equals :: others ∧ equals.kind = .symbol .equal ∧
          value = some tree ∧ ReadableExpression others tree
  | .varDeclaration, tokens, tree => ∀ bound rest, 4 * tokens.length ≤ bound + 3 →
      (varDeclaration (expression bound)).Reads (tokens ++ rest) tree rest
  | .expressionStatement, tokens, tree => ∀ bound rest, 4 * tokens.length ≤ bound + 3 →
      (expressionStatement (expression bound)).Reads (tokens ++ rest) tree rest
  | .forStart, tokens, tree => ∀ bound rest, 4 * tokens.length ≤ bound + 3 →
      (forInitializer (expression bound)).Reads (tokens ++ rest) tree rest
  | .statement dangling, tokens, tree => ∀ bound rest, 4 * tokens.length ≤ bound + 2 →
      (dangling = true → Avoids (·.isKeyword .else) rest) →
      (statement bound).Reads (tokens ++ rest) tree rest
  | .declaration, tokens, tree => ∀ bound rest, 4 * tokens.length ≤ bound + 1 →
      Avoids (·.isKeyword .else) rest → (declaration bound).Reads (tokens ++ rest) tree rest
  | .optional item, tokens, value =>
      (tokens = [] ∧ value = none) ∨
        ∃ tree, value = some tree ∧ Derives item tokens tree ∧ Readable item tokens tree
  | .repeated item, tokens, trees => ∀ parser stop rounds last rest,
      ReadsItems item (Readable item) parser tokens.length
        (fun kind => !stop kind && !kind.isKeyword .else) (Avoids (·.isKeyword .else)) →
      tokens.length < rounds → stop last.kind = true → last.kind.isKeyword .else = false →
      Avoids (·.isKeyword .else) (tokens ++ last :: rest) ∧
        (itemsUntil stop parser rounds).Reads (tokens ++ last :: rest) trees (last :: rest)
  | .separated item, tokens, trees => ∀ things parser rounds count last rest,
      ReadsItems item (Readable item) parser tokens.length (fun kind => !kind.isSymbol .rightParen)
        FollowsItem →
      tokens.length ≤ rounds → count + trees.length ≤ 255 → last.kind = .symbol .rightParen →
      BeginsWith (fun kind => !kind.isSymbol .rightParen) tokens ∧
        (itemsByComma things parser rounds count).Reads (tokens ++ last :: rest) trees (last :: rest)
  | .list item, tokens, trees => ∀ things parser bound closing rest,
      ReadsItems item (Readable item) parser tokens.length (fun kind => !kind.isSymbol .rightParen)
        FollowsItem →
      tokens.length < bound → closing.kind = .symbol .rightParen →
      (parenthesizedItems things parser bound).Reads (tokens ++ closing :: rest) (trees, closing) rest

/-! ## Sequences -/

theorem ReadsItems.mono {item : Phrase} {readable : List Token → item.Tree → Prop}
    {parser : Parser item.Tree} {small large : Nat} {begins : Token.Kind → Bool}
    {follows : List Token → Prop} (reads : ReadsItems item readable parser large begins follows)
    (le : small ≤ large) : ReadsItems item readable parser small begins follows :=
  fun tokens tree short => reads tokens tree (Nat.le_trans short le)

section Sequences

variable {item : Phrase}

theorem readable_done : Readable (.repeated item) [] [] := by
  intro parser stop rounds last rest _ room stops notElse
  obtain ⟨fewer, rfl⟩ : ∃ fewer, rounds = fewer + 1 := ⟨rounds - 1, by simp at room; omega⟩
  refine ⟨by simpa using notElse, ?_⟩
  simp only [itemsUntil, List.nil_append, reads_bind, reads_atEnd, reads_sees]
  exact ⟨_, _, ⟨rfl, rfl⟩, _, _, ⟨rfl, rfl⟩, by simp [stops]⟩

theorem readable_again {left right : List Token} {tree : item.Tree} {trees : List item.Tree}
    (derives : Derives item left tree) (readableFirst : Readable item left tree)
    (readableOthers : Readable (.repeated item) right trees) :
    Readable (.repeated item) (left ++ right) (tree :: trees) := by
  intro parser stop rounds last rest readsItems room stops notElse
  rw [List.length_append] at readsItems room
  obtain ⟨⟨token, others, rfl, opens⟩, readsFirst⟩ :=
    readsItems left tree (by omega) derives readableFirst
  obtain ⟨goesOn, noElse⟩ := by simpa using opens
  rw [List.length_cons] at room
  obtain ⟨fewer, rfl⟩ : ∃ fewer, rounds = fewer + 1 := ⟨rounds - 1, by omega⟩
  obtain ⟨follows, readsOthers⟩ := readableOthers parser stop fewer last rest
    (readsItems.mono (by simp)) (by omega) stops notElse
  refine ⟨by simpa using noElse, ?_⟩
  simp only [itemsUntil, reads_bind, reads_atEnd, reads_sees]
  refine ⟨_, _, ⟨rfl, rfl⟩, _, _, ⟨rfl, rfl⟩, ?_⟩
  simp only [List.append_assoc, List.cons_append, List.isEmpty_cons, List.head?_cons,
    Option.any_some, goesOn, Bool.or_self, Bool.false_eq_true, ↓reduceIte, reads_bind, reads_pure]
  exact ⟨tree, _, readsFirst _ follows, trees, _, readsOthers, rfl, rfl⟩

theorem readable_last {tokens : List Token} {tree : item.Tree} (derives : Derives item tokens tree)
    (readable : Readable item tokens tree) : Readable (.separated item) tokens [tree] := by
  intro things parser rounds count last rest readsItems room short closes
  obtain ⟨begins, reads⟩ := readsItems tokens tree (Nat.le_refl _) derives readable
  refine ⟨begins, ?_⟩
  obtain ⟨token, others, rfl, _⟩ := begins
  rw [List.length_cons] at room
  obtain ⟨fewer, rfl⟩ : ∃ fewer, rounds = fewer + 1 := ⟨rounds - 1, by omega⟩
  have fits : ¬ longestList ≤ count := by
    rw [List.length_singleton] at short
    exact Nat.not_le.mpr short
  rw [itemsByComma, if_neg fits]
  simp only [reads_bind, reads_optionalSymbol]
  refine ⟨tree, last :: rest, reads _ ⟨last, rest, rfl, .inr closes⟩, none, _,
    .inr ⟨?_, rfl, rfl⟩, reads_pure.mpr ⟨rfl, rfl⟩⟩
  simp [closes, Token.Kind.isSymbol]

theorem readable_comma {left right : List Token} {sign : Token} {tree : item.Tree}
    {trees : List item.Tree} (derives : Derives item left tree)
    (readableFirst : Readable item left tree) (separates : sign.kind = .symbol .comma)
    (readableOthers : Readable (.separated item) right trees) :
    Readable (.separated item) (left ++ sign :: right) (tree :: trees) := by
  intro things parser rounds count last rest readsItems room short closes
  rw [List.length_append, List.length_cons] at readsItems room
  obtain ⟨begins, readsFirst⟩ := readsItems left tree (by omega) derives readableFirst
  obtain ⟨token, others, rfl, opens⟩ := begins
  refine ⟨⟨token, _, rfl, opens⟩, ?_⟩
  obtain ⟨fewer, rfl⟩ : ∃ fewer, rounds = fewer + 1 := ⟨rounds - 1, by omega⟩
  rw [List.length_cons] at short
  have fits : ¬ longestList ≤ count := Nat.not_le.mpr (by unfold longestList; omega)
  obtain ⟨_, readsOthers⟩ := readableOthers things parser fewer (count + 1) last rest
    (readsItems.mono (by omega)) (by omega) (by omega) closes
  rw [itemsByComma, if_neg fits]
  rw [List.append_assoc, List.cons_append]
  simp only [reads_bind, reads_optionalSymbol]
  refine ⟨tree, _, readsFirst _ ⟨sign, _, rfl, .inl separates⟩, some sign, _,
    .inl ⟨sign, rfl, separates, rfl⟩, ?_⟩
  simp only [reads_bind, reads_pure]
  exact ⟨trees, _, readsOthers, rfl, rfl⟩

theorem readable_empty : Readable (.list item) [] [] := by
  intro things parser bound closing rest _ _ closes
  simp only [parenthesizedItems, List.nil_append, reads_bind, reads_sees]
  refine ⟨_, _, ⟨rfl, rfl⟩, ?_⟩
  rw [if_pos (by simp [closes])]
  simp only [reads_bind, reads_pure, reads_symbol]
  exact ⟨[], _, ⟨rfl, rfl⟩, closing, rest, ⟨rfl, closes⟩, rfl, rfl⟩

theorem readable_list {tokens : List Token} {trees : List item.Tree}
    (readable : Readable (.separated item) tokens trees) (short : trees.length ≤ 255) :
    Readable (.list item) tokens trees := by
  intro things parser bound closing rest readsItems room closes
  obtain ⟨begins, reads⟩ := readable things parser bound 0 closing rest readsItems
    (Nat.le_of_lt room) (by omega) closes
  obtain ⟨token, others, rfl, opens⟩ := begins
  have goesOn : token.kind.isSymbol .rightParen = false := by simpa using opens
  simp only [parenthesizedItems, reads_bind, reads_sees]
  refine ⟨_, _, ⟨rfl, rfl⟩, ?_⟩
  simp only [List.cons_append, List.head?_cons, Option.any_some, goesOn, Bool.false_eq_true,
    ↓reduceIte, reads_bind, reads_pure, reads_symbol]
  exact ⟨trees, _, reads, closing, rest, ⟨rfl, closes⟩, rfl, rfl⟩

end Sequences

/-! ## Operations -/

theorem ReadableOperation.plain {levels : List Level} {tokens : List Token} {tree : Expr}
    (readable : ReadableOperation tokens tree levels) (bound : Nat) (rest : List Token)
    (room : 4 * tokens.length ≤ bound + 2) (ends : Ends levels rest) :
    (operations bound (operand bound) levels).Reads (tokens ++ rest) tree rest := by
  cases levels with
  | nil => exact readable bound rest room ends
  | cons level levels =>
      obtain ⟨rounds, enough, continues⟩ := readable bound rest room ends.tail
      obtain ⟨fewer, rfl⟩ : ∃ fewer, rounds = fewer + 1 := ⟨rounds - 1, by omega⟩
      apply continues
      simp only [operands, reads_bind, reads_optionalAs]
      refine ⟨none, rest, .inr ⟨?_, rfl, rfl⟩, reads_pure.mpr ⟨rfl, rfl⟩⟩
      intro token member
      exact (ends token member).2.2 level (.head levels)

theorem readable_tighter {level : Level} {levels : List Level} {tokens : List Token} {tree : Expr}
    (derives : Derives (.operation levels) tokens tree)
    (readable : Readable (.operation levels) tokens tree) :
    Readable (.operation (level :: levels)) tokens tree := by
  intro distinct bound rest room ends
  refine ⟨bound, ?_, ?_⟩
  · have nonempty := List.length_pos_iff.mpr derives.begins.ne_nil
    omega
  · intro value last reads
    simp only [operations, reads_bind]
    exact ⟨tree, rest, (readable distinct.of_cons).plain bound rest room ends, reads⟩

theorem readable_joined {level : Level} {levels : List Level} {left right : List Token}
    {operator : Token} {first second : Expr} {connective : Connective}
    (readableLeft : Readable (.operation (level :: levels)) left first)
    (sign : Infix level operator.kind connective)
    (readableRight : Readable (.operation levels) right second) :
    Readable (.operation (level :: levels)) (left ++ operator :: right)
      (operationOf first operator.span second connective) := by
  intro distinct bound rest room ends
  rw [List.length_append, List.length_cons] at room
  obtain ⟨absent, distinctTail⟩ := List.nodup_cons.mp distinct
  obtain ⟨rounds, enough, continues⟩ := readableLeft distinct bound (operator :: (right ++ rest))
    (by omega) (ends_of_operator sign absent _)
  obtain ⟨fewer, rfl⟩ : ∃ fewer, rounds = fewer + 1 := ⟨rounds - 1, by omega⟩
  refine ⟨fewer, by simp only [List.length_append, List.length_cons]; omega, ?_⟩
  intro value last reads
  rw [List.append_assoc, List.cons_append]
  apply continues
  simp only [operands, reads_bind, reads_optionalAs]
  refine ⟨some (connective, operator.span), right ++ rest,
    .inl ⟨operator, connective, rfl, connective?_of_sign sign, rfl⟩, ?_⟩
  simp only [reads_bind, join_eq_operationOf]
  exact ⟨second, rest, (readableRight distinctTail).plain bound rest (by omega) ends, reads⟩

theorem unaryOperator?_of_prefixed {kind : Token.Kind} {operator : UnaryOperator}
    (sign : Prefixed kind operator) : unaryOperator? kind = some operator := by
  cases sign <;> rfl

theorem readable_prefixed {tokens : List Token} {token : Token} {operator : UnaryOperator}
    {inner : Expr} (sign : Prefixed token.kind operator)
    (readable : Readable (.operation []) tokens inner) :
    Readable (.operation []) (token :: tokens) (Expr.unary operator inner token.span) := by
  intro distinct bound rest room ends
  rw [List.length_cons] at room
  obtain ⟨bound, rfl⟩ : ∃ fewer, bound = fewer + 1 := ⟨bound - 1, by omega⟩
  simp only [operand, prefixed, reads_bind, reads_optionalAs]
  refine ⟨some (operator, token.span), tokens ++ rest,
    .inl ⟨token, operator, rfl, unaryOperator?_of_prefixed sign, rfl⟩, ?_⟩
  simp only [reads_bind, reads_pure]
  exact ⟨inner, rest, readable distinct bound rest (by omega) ends, rfl, rfl⟩

theorem readable_operand {tokens : List Token} {tree : Expr} (derives : Derives .call tokens tree)
    (readable : Readable .call tokens tree) : Readable (.operation []) tokens tree := by
  intro distinct bound rest room ends
  obtain ⟨begins, noPrefix⟩ := derives.begins
  have nonempty := List.length_pos_iff.mpr begins.ne_nil
  obtain ⟨bound, rfl⟩ : ∃ fewer, bound = fewer + 1 := ⟨bound - 1, by omega⟩
  obtain ⟨rounds, enough, continues⟩ := readable bound rest (by omega)
  obtain ⟨fewer, rfl⟩ : ∃ fewer, rounds = fewer + 1 := ⟨rounds - 1, by omega⟩
  have reads : (suffixed (primaryWithin bound) (expression bound) bound).Reads
      (tokens ++ rest) tree rest := by
    apply continues
    simp only [suffixes, reads_bind, reads_optionalSymbol]
    refine ⟨none, rest, .inr ⟨fun token member => (ends token member).1, rfl, rfl⟩, ?_⟩
    simp only [reads_bind, reads_optionalSymbol]
    exact ⟨none, rest, .inr ⟨fun token member => (ends token member).2.1, rfl, rfl⟩,
      reads_pure.mpr ⟨rfl, rfl⟩⟩
  simp only [operand, prefixed, reads_bind, reads_optionalAs]
  refine ⟨none, tokens ++ rest, .inr ⟨?_, rfl, rfl⟩, reads⟩
  obtain ⟨first, others, rfl, _⟩ := begins
  simpa using noPrefix

/-! ## Calls and properties -/

theorem readable_primary {tokens : List Token} {tree : Expr}
    (derives : Derives .primary tokens tree) (readable : Readable .primary tokens tree) :
    Readable .call tokens tree := by
  intro bound rest room
  refine ⟨bound, ?_, ?_⟩
  · have nonempty := List.length_pos_iff.mpr derives.begins.1.ne_nil
    omega
  · intro value last reads
    simp only [suffixed, reads_bind]
    exact ⟨tree, rest, readable bound rest room, reads⟩

/-- Arguments are read item by item. -/
theorem readsItems_expression {bound size : Nat} (room : 4 * size ≤ bound + 1) :
    ReadsItems .expression (Readable .expression) (expression bound) size
      (fun kind => !kind.isSymbol .rightParen) FollowsItem := by
  intro tokens tree within derives readable
  refine ⟨?_, ?_⟩
  · obtain ⟨first, others, rfl, opens, _⟩ := derives.begins
    refine ⟨first, others, rfl, ?_⟩
    rw [Bool.not_eq_true', ← Bool.not_eq_true, isSymbol_iff]
    intro kind
    rw [kind] at opens
    cases opens
  · intro rest follows
    obtain ⟨token, others, rfl, comma | paren⟩ := follows
    · exact readable bound _ (by omega) (endsExpression_of_symbol comma rfl others)
    · exact readable bound _ (by omega) (endsExpression_of_symbol paren rfl others)

theorem readable_call {left between : List Token} {opening closing : Token} {callee : Expr}
    {arguments : List Expr} (readableCallee : Readable .call left callee)
    (opens : opening.kind = .symbol .leftParen)
    (readableArguments : Readable (.list .expression) between arguments)
    (closes : closing.kind = .symbol .rightParen) :
    Readable .call (left ++ opening :: (between ++ [closing]))
      (Expr.call callee arguments closing.span) := by
  intro bound rest room
  simp only [List.length_append, List.length_cons, List.length_nil] at room
  obtain ⟨rounds, enough, continues⟩ :=
    readableCallee bound (opening :: (between ++ closing :: rest)) (by omega)
  obtain ⟨fewer, rfl⟩ : ∃ fewer, rounds = fewer + 1 := ⟨rounds - 1, by omega⟩
  refine ⟨fewer, by simp only [List.length_append, List.length_cons, List.length_nil]; omega, ?_⟩
  intro value last reads
  rw [List.append_assoc, List.cons_append, List.append_assoc, List.singleton_append]
  apply continues
  simp only [suffixes, reads_bind, reads_optionalSymbol]
  refine ⟨some opening, _, .inl ⟨opening, rfl, opens, rfl⟩, ?_⟩
  simp only [reads_bind]
  exact ⟨(arguments, closing), rest, readableArguments "arguments" (expression bound) fewer closing
    rest (readsItems_expression (by omega)) (by omega) closes, reads⟩

theorem readable_property {left : List Token} {dot word : Token} {object : Expr}
    (readableObject : Readable .call left object) (sign : dot.kind = .symbol .dot)
    (identifier : word.kind = .identifier) :
    Readable .call (left ++ [dot, word]) (Expr.get object (nameOf word)) := by
  intro bound rest room
  simp only [List.length_append, List.length_cons, List.length_nil] at room
  obtain ⟨rounds, enough, continues⟩ := readableObject bound (dot :: word :: rest) (by omega)
  obtain ⟨fewer, rfl⟩ : ∃ fewer, rounds = fewer + 1 := ⟨rounds - 1, by omega⟩
  refine ⟨fewer, by simp only [List.length_append, List.length_cons, List.length_nil]; omega, ?_⟩
  intro value last reads
  rw [List.append_assoc, List.cons_append, List.singleton_append]
  apply continues
  simp only [suffixes, reads_bind, reads_optionalSymbol]
  refine ⟨none, _, .inr ⟨by simp [sign, Token.Kind.isSymbol], rfl, rfl⟩, ?_⟩
  simp only [reads_bind, reads_optionalSymbol]
  refine ⟨some dot, _, .inl ⟨dot, rfl, sign, rfl⟩, ?_⟩
  simp only [reads_bind, reads_require, isIdentifier_iff]
  exact ⟨word, rest, ⟨rfl, identifier⟩, reads⟩

/-! ## Primary expressions -/

theorem readable_constant {token : Token} {value : Literal} (sign : Constant token.kind value) :
    Readable .primary [token] (Expr.literal value token.span) := by
  intro bound rest _
  simp only [primaryWithin, primary, List.singleton_append, reads_bind, reads_peek, List.head?_cons]
  refine ⟨_, _, ⟨rfl, rfl⟩, ?_⟩
  generalize kind : token.kind = found at sign
  cases sign <;> simp [kind]

theorem readable_reference {word : Token} (identifier : word.kind = .identifier) :
    Readable .primary [word] (Expr.variable ⟨nameOf word, none⟩) := by
  intro bound rest _
  simp only [primaryWithin, primary, List.singleton_append, reads_bind, reads_peek, List.head?_cons]
  refine ⟨_, _, ⟨rfl, rfl⟩, ?_⟩
  simp [identifier, nameOf]

theorem readable_this {word : Token} (sign : word.kind = .keyword .this) :
    Readable .primary [word] (Expr.this none word.span) := by
  intro bound rest _
  simp only [primaryWithin, primary, List.singleton_append, reads_bind, reads_peek, List.head?_cons]
  refine ⟨_, _, ⟨rfl, rfl⟩, ?_⟩
  simp [sign]

theorem readable_super {word dot method : Token} (sign : word.kind = .keyword .super)
    (point : dot.kind = .symbol .dot) (identifier : method.kind = .identifier) :
    Readable .primary [word, dot, method] (Expr.super none (nameOf method) word.span) := by
  intro bound rest _
  simp only [primaryWithin, primary, List.cons_append, reads_bind, reads_peek, List.head?_cons]
  refine ⟨_, _, ⟨rfl, rfl⟩, ?_⟩
  simp only [sign, superRest, reads_bind, reads_skip, reads_symbol, reads_name, reads_pure]
  exact ⟨_, _, ⟨rfl, rfl⟩, dot, _, ⟨rfl, point⟩, _, _, ⟨method, rfl, identifier, rfl⟩, rfl, rfl⟩

theorem readable_grouping {tokens : List Token} {opening closing : Token} {tree : Expr}
    (opens : opening.kind = .symbol .leftParen) (readable : Readable .expression tokens tree)
    (closes : closing.kind = .symbol .rightParen) :
    Readable .primary (opening :: (tokens ++ [closing])) (Expr.grouping tree opening.span) := by
  intro bound rest room
  simp only [List.length_append, List.length_cons, List.length_nil] at room
  have reads := readable bound (closing :: rest) (by omega) (endsExpression_of_symbol closes rfl rest)
  rw [List.cons_append, List.append_assoc, List.singleton_append]
  simp only [primaryWithin, primary, reads_bind, reads_peek, List.head?_cons]
  refine ⟨_, _, ⟨rfl, rfl⟩, ?_⟩
  simp only [opens, groupingRest, reads_bind, reads_skip, reads_symbol, reads_pure]
  exact ⟨_, _, ⟨rfl, rfl⟩, tree, _, reads, closing, rest, ⟨rfl, closes⟩, rfl, rfl⟩

theorem readable_lambda {word : Token} {tokens : List Token} {parameters : List Name}
    {body : List Stmt} (sign : word.kind = .keyword .fun)
    (readable : Readable .function tokens (parameters, body)) :
    Readable .primary (word :: tokens) (Expr.lambda ⟨nameOf word, parameters, body, false⟩) := by
  intro bound rest room
  rw [List.length_cons] at room
  obtain ⟨opening, middle, last, readsOpening, readsParameters, readsBody⟩ :=
    readable bound rest "after 'fun'" "function" (by omega)
  simp only [primaryWithin, primary, lambdaRest, List.cons_append, reads_bind, reads_peek,
    List.head?_cons]
  refine ⟨_, _, ⟨rfl, rfl⟩, ?_⟩
  simp only [sign, reads_bind, reads_skip, reads_pure]
  exact ⟨_, _, ⟨rfl, rfl⟩, opening, middle, readsOpening, parameters, last, readsParameters, body,
    rest, readsBody, rfl, rfl⟩

/-! ## Assignments -/

theorem readable_operation {tokens : List Token} {tree : Expr}
    (derives : Derives (.operation Level.all) tokens tree)
    (readable : Readable (.operation Level.all) tokens tree) :
    Readable .expression tokens tree := by
  intro bound rest room ends
  have nonempty := List.length_pos_iff.mpr derives.begins.ne_nil
  obtain ⟨bound, rfl⟩ : ∃ fewer, bound = fewer + 1 := ⟨bound - 1, by omega⟩
  simp only [expression, assignment, reads_bind, reads_optionalSymbol]
  exact ⟨tree, rest, (readable (by decide)).plain bound rest (by omega) ends.1, none, rest,
    .inr ⟨ends.2, rfl, rfl⟩, reads_pure.mpr ⟨rfl, rfl⟩⟩

/-- Both sides of an assignment are read, and the sign between them. -/
theorem reads_assignment {left right rest : List Token} {equals : Token} {target value tree : Expr}
    {bound : Nat} (readableTarget : Readable (.operation Level.all) left target)
    (sign : equals.kind = .symbol .equal) (readableValue : Readable .expression right value)
    (room : 4 * (left ++ equals :: right).length ≤ bound + 1) (ends : EndsExpression rest)
    (becomes : Parser.Reads
      (match target with
      | .variable reference => pure (Expr.assign ⟨reference.name, none⟩ value equals.span)
      | .get object name => pure (Expr.set object name value equals.span)
      | other => do
          note .assignmentTarget (some equals)
          return other) rest tree rest) :
    (expression bound).Reads (left ++ equals :: right ++ rest) tree rest := by
  rw [List.length_append, List.length_cons] at room
  obtain ⟨bound, rfl⟩ : ∃ fewer, bound = fewer + 1 := ⟨bound - 1, by omega⟩
  have readsTarget := (readableTarget (by decide)).plain bound (equals :: (right ++ rest)) (by omega)
    (ends_of_symbol sign (.inr rfl) _)
  have readsValue := readableValue bound rest (by omega) ends
  simp only [expression, assignment, List.append_assoc, List.cons_append, reads_bind,
    reads_optionalSymbol]
  refine ⟨target, _, readsTarget, some equals, _, .inl ⟨equals, rfl, sign, rfl⟩, ?_⟩
  simp only [reads_bind]
  exact ⟨value, rest, readsValue, becomes⟩

theorem readable_assignVariable {left right : List Token} {equals : Token} {target : Reference}
    {value : Expr} (readableTarget : Readable (.operation Level.all) left (Expr.variable target))
    (sign : equals.kind = .symbol .equal) (readableValue : Readable .expression right value) :
    Readable .expression (left ++ equals :: right)
      (Expr.assign ⟨target.name, none⟩ value equals.span) := by
  intro bound rest room ends
  exact reads_assignment readableTarget sign readableValue room ends (reads_pure.mpr ⟨rfl, rfl⟩)

theorem readable_assignProperty {left right : List Token} {equals : Token} {object : Expr}
    {name : Name} {value : Expr}
    (readableTarget : Readable (.operation Level.all) left (Expr.get object name))
    (sign : equals.kind = .symbol .equal) (readableValue : Readable .expression right value) :
    Readable .expression (left ++ equals :: right) (Expr.set object name value equals.span) := by
  intro bound rest room ends
  exact reads_assignment readableTarget sign readableValue room ends (reads_pure.mpr ⟨rfl, rfl⟩)

end Lox.Grammar
