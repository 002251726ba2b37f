import Lox.Proofs.Grammar.Completeness.Expression
import Lox.Proofs.Grammar.Soundness.Statement

/-!
Contract: derivable functions, statements and declarations are read.

Main statement: `Derives.readable`, by induction on the derivation, with one lemma
for each rule. A statement that is dangling is read before anything but an `else`;
every other statement is read before anything.

Owns: the rules for statements, and the induction over derivations.
-/

set_option autoImplicit false

namespace Lox.Grammar

open Lox.Parser

/-! ## Functions -/

theorem readable_parameter {word : Token} (identifier : word.kind = .identifier) :
    Readable .parameter [word] (nameOf word) := by
  intro role rest
  exact reads_name.mpr ⟨word, rfl, identifier, rfl⟩

/-- Parameters are read item by item. -/
theorem readsItems_parameter (role : String) (size : Nat) :
    ReadsItems .parameter (Readable .parameter) (name role) size
      (fun kind => !kind.isSymbol .rightParen) FollowsItem := by
  intro tokens tree _ derives readable
  refine ⟨?_, fun rest _ => readable role rest⟩
  obtain ⟨first, others, rfl, identifier⟩ := derives.begins
  rw [isIdentifier_iff] at identifier
  exact ⟨first, others, rfl, by rw [identifier]; rfl⟩

theorem readable_function {between tokens : List Token} {opening closing : Token}
    {found : List Name} {statements : List Stmt} (opens : opening.kind = .symbol .leftParen)
    (readableNames : Readable (.list .parameter) between found)
    (closes : closing.kind = .symbol .rightParen)
    (readableBody : Readable .body tokens statements) :
    Readable .function (opening :: (between ++ closing :: tokens)) (found, statements) := by
  intro bound rest place role room
  simp only [List.length_append, List.length_cons] at room
  refine ⟨opening, between ++ closing :: (tokens ++ rest), tokens ++ rest,
    reads_symbol.mpr ⟨by simp, opens⟩, ?_, readableBody bound rest role (by omega)⟩
  simp only [parameters, reads_bind, reads_pure]
  exact ⟨(found, closing), _, readableNames "parameters" (name "parameter") bound closing _
    (readsItems_parameter _ _) (by omega) closes, rfl, rfl⟩

/-- Declarations are read item by item. -/
theorem readsItems_declaration {bound size : Nat} (room : 4 * size ≤ bound + 1) :
    ReadsItems .declaration (Readable .declaration) (declaration bound) size
      (fun kind => !kind.isSymbol .rightBrace && !kind.isKeyword .else)
      (Avoids (·.isKeyword .else)) := by
  intro tokens tree within derives readable
  refine ⟨?_, fun rest noElse => readable bound rest (by omega) noElse⟩
  obtain ⟨first, others, rfl, opens⟩ := derives.begins
  refine ⟨first, others, rfl, ?_⟩
  generalize first.kind = kind at opens
  rw [Bool.and_eq_true, Bool.not_eq_true', Bool.not_eq_true', ← Bool.not_eq_true,
    ← Bool.not_eq_true, isSymbol_iff, isKeyword_iff]
  refine ⟨?_, ?_⟩
  · rintro rfl
    cases opens
  · rintro rfl
    cases opens

theorem readable_body {tokens : List Token} {opening closing : Token} {statements : List Stmt}
    (opens : opening.kind = .symbol .leftBrace)
    (readable : Readable (.repeated .declaration) tokens statements)
    (closes : closing.kind = .symbol .rightBrace) :
    Readable .body (opening :: (tokens ++ [closing])) statements := by
  intro bound rest role room
  simp only [List.length_append, List.length_cons, List.length_nil] at room
  obtain ⟨_, reads⟩ := readable (declaration bound) (·.isSymbol .rightBrace) bound closing rest
    (readsItems_declaration (by omega)) (by omega) (isSymbol_iff.mpr closes) (by rw [closes]; rfl)
  rw [List.cons_append, List.append_assoc, List.singleton_append]
  simp only [functionBody, blockRest, reads_bind, reads_symbol, reads_pure]
  exact ⟨opening, _, ⟨rfl, opens⟩, statements, _, reads, closing, rest, ⟨rfl, closes⟩, rfl, rfl⟩

theorem reads_functionRest {tokens : List Token} {found : List Name} {statements : List Stmt}
    (role : String) (declared : Name) (readable : Readable .function tokens (found, statements))
    (bound : Nat) (rest : List Token) (room : 4 * tokens.length ≤ bound + 3) :
    (functionRest role declared (declaration bound) bound).Reads (tokens ++ rest)
      ⟨declared, found, statements, false⟩ rest := by
  obtain ⟨opening, middle, last, readsOpening, readsNames, readsBody⟩ :=
    readable bound rest ("after " ++ role ++ " name") role room
  simp only [functionRest, reads_bind, reads_pure]
  exact ⟨opening, middle, readsOpening, found, last, readsNames, statements, rest, readsBody, rfl,
    rfl⟩

theorem readable_method {word : Token} {tokens : List Token} {found : List Name}
    {statements : List Stmt} (identifier : word.kind = .identifier)
    (derives : Derives .function tokens (found, statements))
    (readable : Readable .function tokens (found, statements)) :
    Readable .method (word :: tokens) ⟨nameOf word, found, statements, false⟩ := by
  intro bound rest room
  rw [List.length_cons] at room
  have reads := reads_functionRest "method" (nameOf word) readable bound rest (by omega)
  obtain ⟨first, others, rfl, opens⟩ := derives.begins
  rw [isSymbol_iff] at opens
  simp only [method, reads_bind, reads_name, reads_sees]
  refine ⟨_, _, ⟨word, rfl, identifier, rfl⟩, _, _, ⟨rfl, rfl⟩, ?_⟩
  rw [if_neg (by simp [opens])]
  exact reads

theorem readable_getter {word : Token} {tokens : List Token} {statements : List Stmt}
    (identifier : word.kind = .identifier) (derives : Derives .body tokens statements)
    (readable : Readable .body tokens statements) :
    Readable .method (word :: tokens) ⟨nameOf word, [], statements, true⟩ := by
  intro bound rest room
  rw [List.length_cons] at room
  have reads := readable bound rest "method" (by omega)
  obtain ⟨first, others, rfl, opens⟩ := derives.begins
  rw [isSymbol_iff] at opens
  simp only [method, reads_bind, reads_name, reads_sees]
  refine ⟨_, _, ⟨word, rfl, identifier, rfl⟩, _, _, ⟨rfl, rfl⟩, ?_⟩
  rw [if_pos (by simp [opens])]
  simp only [reads_bind, reads_pure]
  exact ⟨statements, rest, reads, rfl, rfl⟩

/-! ## Declarations -/

theorem readable_varDeclaration {word name semicolon : Token} {tokens : List Token}
    {value : Option Expr} (identifier : name.kind = .identifier)
    (readable : Readable .initializer tokens value) (ends : semicolon.kind = .symbol .semicolon) :
    Readable .varDeclaration (word :: name :: (tokens ++ [semicolon]))
      (Stmt.var (nameOf name) value word.span) := by
  intro bound rest room
  simp only [List.length_append, List.length_cons, List.length_nil] at room
  simp only [List.cons_append, List.append_assoc, List.nil_append, varDeclaration,
    Grammar.semicolon, reads_bind, reads_skip, reads_name, reads_optionalSymbol]
  refine ⟨_, _, ⟨rfl, rfl⟩, _, _, ⟨name, rfl, identifier, rfl⟩, ?_⟩
  obtain ⟨rfl, rfl⟩ | ⟨equals, others, tree, rfl, isEqual, rfl, readable⟩ := readable
  · refine ⟨none, _, .inr ⟨by simp [ends, Token.Kind.isSymbol], rfl, rfl⟩, ?_⟩
    simp only [List.nil_append, reads_bind, reads_pure, reads_symbol]
    exact ⟨none, _, ⟨rfl, rfl⟩, semicolon, rest, ⟨rfl, ends⟩, rfl, rfl⟩
  · rw [List.length_cons] at room
    have reads := readable bound (semicolon :: rest) (by omega)
      (endsExpression_of_symbol ends rfl rest)
    refine ⟨some equals, _, .inl ⟨equals, rfl, isEqual, rfl⟩, ?_⟩
    simp only [reads_bind, reads_map, reads_pure, reads_symbol]
    exact ⟨some tree, _, ⟨tree, reads, rfl⟩, semicolon, rest, ⟨rfl, ends⟩, rfl, rfl⟩

/-- A declaration within a bound is the rule for declarations within one less. -/
theorem reads_declaration {tokens rest : List Token} {tree : Stmt} {bound : Nat}
    (nonempty : 0 < tokens.length) (room : 4 * tokens.length ≤ bound + 1)
    (reads : ∀ fewer, 4 * tokens.length ≤ fewer + 2 →
      (declarationOf (expression fewer) (statement fewer) (declaration fewer) fewer).Reads
        (tokens ++ rest) tree rest) :
    (declaration bound).Reads (tokens ++ rest) tree rest := by
  obtain ⟨fewer, rfl⟩ : ∃ fewer, bound = fewer + 1 := ⟨bound - 1, by omega⟩
  exact reads fewer (by omega)

theorem readable_ofVariable {tokens : List Token} {tree : Stmt}
    (derives : Derives .varDeclaration tokens tree)
    (readable : Readable .varDeclaration tokens tree) : Readable .declaration tokens tree := by
  intro bound rest room _
  obtain ⟨word, others, rfl, isVar⟩ := derives.begins
  rw [isKeyword_iff] at isVar
  apply reads_declaration (by simp) room
  intro fewer enough
  simp only [declarationOf, reads_bind, reads_sees]
  refine ⟨_, _, ⟨rfl, rfl⟩, ?_⟩
  rw [if_neg (by simp [isVar])]
  simp only [reads_bind, reads_seesNamedFunction]
  refine ⟨false, _, ⟨rfl, ?_⟩, ?_⟩
  · refine iff_of_false (by simp) ?_
    intro named
    obtain ⟨_, _, _, same, isFun, _⟩ := named
    obtain ⟨rfl, _⟩ := List.cons.inj same
    rw [isVar] at isFun
    cases isFun
  rw [if_neg (by simp)]
  simp only [reads_bind, reads_sees]
  refine ⟨_, _, ⟨rfl, rfl⟩, ?_⟩
  rw [if_pos (by simp [isVar])]
  exact readable fewer rest (by omega)

theorem readable_ofFunction {word name : Token} {tokens : List Token} {found : List Name}
    {statements : List Stmt} (sign : word.kind = .keyword .fun)
    (identifier : name.kind = .identifier)
    (readable : Readable .function tokens (found, statements)) :
    Readable .declaration (word :: name :: tokens)
      (Stmt.function ⟨nameOf name, found, statements, false⟩ word.span) := by
  intro bound rest room _
  apply reads_declaration (by simp) room
  intro fewer enough
  simp only [List.length_cons] at enough
  simp only [declarationOf, List.cons_append, reads_bind, reads_sees]
  refine ⟨_, _, ⟨rfl, rfl⟩, ?_⟩
  rw [if_neg (by simp [sign])]
  simp only [reads_bind, reads_seesNamedFunction]
  refine ⟨true, _, ⟨rfl, iff_of_true rfl ⟨word, name, _, rfl, sign, identifier⟩⟩, ?_⟩
  rw [if_pos rfl]
  simp only [functionDeclaration, reads_bind, reads_skip, reads_name, reads_pure]
  exact ⟨_, _, ⟨rfl, rfl⟩, _, _, ⟨name, rfl, identifier, rfl⟩, _, _,
    reads_functionRest "function" (nameOf name) readable fewer rest (by omega), rfl, rfl⟩

theorem reads_superclass {tokens rest : List Token} {tree : Option Reference}
    (clause : Inheritance tokens tree) (noLess : Avoids (·.isSymbol .less) rest) :
    superclass.Reads (tokens ++ rest) tree rest := by
  simp only [superclass, reads_bind, reads_optionalSymbol]
  cases clause with
  | absent => exact ⟨none, rest, .inr ⟨noLess, rfl, rfl⟩, reads_pure.mpr ⟨rfl, rfl⟩⟩
  | present mark parent less identifier =>
      refine ⟨some mark, parent :: rest, .inl ⟨mark, rfl, less, rfl⟩, ?_⟩
      simp only [reads_bind, reads_name, reads_pure]
      exact ⟨_, rest, ⟨parent, rfl, identifier, rfl⟩, rfl, rfl⟩

/-- Methods are read item by item. -/
theorem readsItems_method {bound size : Nat} (room : 4 * size ≤ bound + 3) :
    ReadsItems .method (Readable .method) (method (declaration bound) bound) size
      (fun kind => !kind.isSymbol .rightBrace && !kind.isKeyword .else)
      (Avoids (·.isKeyword .else)) := by
  intro tokens tree within derives readable
  refine ⟨?_, fun rest _ => readable bound rest (by omega)⟩
  obtain ⟨first, others, rfl, identifier⟩ := derives.begins
  rw [isIdentifier_iff] at identifier
  exact ⟨first, others, rfl, by rw [identifier]; rfl⟩

theorem readable_ofClass {word name opening closing : Token} {inherits tokens : List Token}
    {parent : Option Reference} {methods : List FunctionDeclaration}
    (sign : word.kind = .keyword .class) (identifier : name.kind = .identifier)
    (clause : Inheritance inherits parent) (opens : opening.kind = .symbol .leftBrace)
    (readable : Readable (.repeated .method) tokens methods)
    (closes : closing.kind = .symbol .rightBrace) :
    Readable .declaration (word :: name :: (inherits ++ opening :: (tokens ++ [closing])))
      (Stmt.class (nameOf name) parent methods word.span) := by
  intro bound rest room _
  apply reads_declaration (by simp) room
  intro fewer enough
  simp only [List.length_append, List.length_cons, List.length_nil] at enough
  obtain ⟨_, reads⟩ := readable (method (declaration fewer) fewer) (·.isSymbol .rightBrace) fewer
    closing rest (readsItems_method (by omega)) (by omega) (isSymbol_iff.mpr closes)
    (by rw [closes]; rfl)
  simp only [declarationOf, List.cons_append, List.append_assoc, List.nil_append, reads_bind,
    reads_sees]
  refine ⟨_, _, ⟨rfl, rfl⟩, ?_⟩
  rw [if_pos (by simp [sign])]
  simp only [classDeclaration, reads_bind, reads_skip, reads_name, reads_symbol, reads_pure]
  exact ⟨_, _, ⟨rfl, rfl⟩, _, _, ⟨name, rfl, identifier, rfl⟩, parent, _,
    reads_superclass clause (by simp [opens, Token.Kind.isSymbol]), opening, _, ⟨rfl, opens⟩,
    methods, _, reads, closing, rest, ⟨rfl, closes⟩, rfl, rfl⟩

/-- A statement begins neither as a class, nor as a named function, nor as the
declaration of a variable does. -/
theorem readable_ofStatement {dangling : Bool} {tokens : List Token} {tree : Stmt}
    (derives : Derives (.statement dangling) tokens tree)
    (readable : Readable (.statement dangling) tokens tree) :
    Readable .declaration tokens tree := by
  intro bound rest room noElse
  obtain ⟨first, others, rfl, notClass, notVar, notNamed⟩ : ∃ first others,
      tokens = first :: others ∧ first.kind.isKeyword .class = false ∧
        first.kind.isKeyword .var = false ∧ ¬ ∃ word name more, first :: (others ++ rest) =
          word :: name :: more ∧ word.kind = .keyword .fun ∧ name.kind = .identifier := by
    obtain ⟨first, others, rfl, opens, lambda⟩ | ⟨first, others, rfl, opens⟩ := derives.begins
    · refine ⟨first, others, rfl, ?_, ?_, ?_⟩
      · exact Bool.eq_false_iff.mpr fun kind => by
          simp [isKeyword_iff.mp kind, beginsExpression] at opens
      · exact Bool.eq_false_iff.mpr fun kind => by
          simp [isKeyword_iff.mp kind, beginsExpression] at opens
      · intro named
        obtain ⟨word, name, more, same, isFun, identifier⟩ := named
        obtain ⟨rfl, sameOthers⟩ := List.cons.inj same
        obtain ⟨second, last, rfl, parenthesis⟩ := lambda isFun
        obtain ⟨rfl, _⟩ := List.cons.inj sameOthers
        rw [parenthesis] at identifier
        cases identifier
    · refine ⟨first, others, rfl, ?_, ?_, ?_⟩
      · exact Bool.eq_false_iff.mpr fun kind => by
          simp [isKeyword_iff.mp kind, beginsStatement] at opens
      · exact Bool.eq_false_iff.mpr fun kind => by
          simp [isKeyword_iff.mp kind, beginsStatement] at opens
      · intro named
        obtain ⟨word, name, more, same, isFun, _⟩ := named
        obtain ⟨rfl, _⟩ := List.cons.inj same
        simp [isFun, beginsStatement] at opens
  apply reads_declaration (by simp) room
  intro fewer enough
  simp only [declarationOf, List.cons_append, reads_bind, reads_sees]
  refine ⟨_, _, ⟨rfl, rfl⟩, ?_⟩
  rw [if_neg (by simp [notClass])]
  simp only [reads_bind, reads_seesNamedFunction]
  refine ⟨false, _, ⟨rfl, iff_of_false (by simp) notNamed⟩, ?_⟩
  rw [if_neg (by simp)]
  simp only [reads_bind, reads_sees]
  refine ⟨_, _, ⟨rfl, rfl⟩, ?_⟩
  rw [if_neg (by simp [notVar])]
  exact readable fewer rest enough fun _ => noElse

/-! ## Statements without branches -/

theorem readable_expressionStatement {first semicolon : Token} {tokens : List Token} {value : Expr}
    (readable : Readable .expression (first :: tokens) value)
    (ends : semicolon.kind = .symbol .semicolon) :
    Readable .expressionStatement (first :: (tokens ++ [semicolon]))
      (Stmt.expression value first.span) := by
  intro bound rest room
  simp only [List.length_append, List.length_cons, List.length_nil] at room
  have reads := readable bound (semicolon :: rest) (by rw [List.length_cons]; omega)
    (endsExpression_of_symbol ends rfl rest)
  simp only [List.cons_append, List.append_assoc, List.nil_append, expressionStatement,
    Grammar.semicolon, reads_bind, reads_nextSpan, reads_symbol, reads_pure]
  exact ⟨_, _, ⟨rfl, rfl⟩, value, _, reads, semicolon, rest, ⟨rfl, ends⟩, rfl, rfl⟩

/-- A statement within a bound is the rule for statements within one less. -/
theorem reads_statement {first : Token} {tokens rest : List Token} {tree : Stmt} {bound : Nat}
    (room : 4 * (first :: tokens).length ≤ bound + 2)
    (reads : ∀ fewer, 4 * tokens.length + 1 ≤ fewer →
      (statementOf (expression fewer) (statement fewer) (declaration fewer) fewer).Reads
        (first :: (tokens ++ rest)) tree rest) :
    (statement bound).Reads (first :: tokens ++ rest) tree rest := by
  rw [List.length_cons] at room
  obtain ⟨fewer, rfl⟩ : ∃ fewer, bound = fewer + 1 := ⟨bound - 1, by omega⟩
  exact reads fewer (by omega)

theorem readable_ofExpression {tokens : List Token} {tree : Stmt}
    (derives : Derives .expressionStatement tokens tree)
    (readable : Readable .expressionStatement tokens tree) :
    Readable (.statement false) tokens tree := by
  intro bound rest room _
  obtain ⟨first, others, rfl, opens, _⟩ := derives.begins
  apply reads_statement room
  intro fewer enough
  have reads := readable fewer rest (by rw [List.length_cons]; omega)
  simp only [statementOf, reads_bind, reads_peek]
  refine ⟨_, _, ⟨rfl, rfl⟩, ?_⟩
  simp only [List.head?_cons, Option.map_some]
  split
  -- No word of a statement begins an expression.
  iterate 8
    · next same =>
        rw [Option.some.injEq] at same
        rw [same] at opens
        cases opens
  · exact reads

theorem readable_print {word semicolon : Token} {tokens : List Token} {value : Expr}
    (sign : word.kind = .keyword .print) (readable : Readable .expression tokens value)
    (ends : semicolon.kind = .symbol .semicolon) :
    Readable (.statement false) (word :: (tokens ++ [semicolon])) (Stmt.print value word.span) := by
  intro bound rest room _
  apply reads_statement room
  intro fewer enough
  simp only [List.length_append, List.length_cons, List.length_nil] at enough
  have reads := readable fewer (semicolon :: rest) (by omega) (endsExpression_of_symbol ends rfl rest)
  simp only [statementOf, reads_bind, reads_peek]
  refine ⟨_, _, ⟨rfl, rfl⟩, ?_⟩
  simp only [List.head?_cons, Option.map_some, sign, List.append_assoc, List.singleton_append,
    printStatement,
    Grammar.semicolon, reads_bind, reads_skip, reads_symbol, reads_pure]
  exact ⟨_, _, ⟨rfl, rfl⟩, value, _, reads, semicolon, rest, ⟨rfl, ends⟩, rfl, rfl⟩

theorem readable_return {word semicolon : Token} {tokens : List Token} {value : Option Expr}
    (sign : word.kind = .keyword .return) (readable : Readable (.optional .expression) tokens value)
    (ends : semicolon.kind = .symbol .semicolon) :
    Readable (.statement false) (word :: (tokens ++ [semicolon]))
      (Stmt.return value word.span) := by
  intro bound rest room _
  apply reads_statement room
  intro fewer enough
  simp only [List.length_append, List.length_cons, List.length_nil] at enough
  simp only [statementOf, reads_bind, reads_peek]
  refine ⟨_, _, ⟨rfl, rfl⟩, ?_⟩
  simp only [List.head?_cons, Option.map_some, sign, List.append_assoc, List.singleton_append,
    returnStatement,
    Grammar.semicolon, reads_bind, reads_skip, reads_sees]
  refine ⟨_, _, ⟨rfl, rfl⟩, _, _, ⟨rfl, rfl⟩, ?_⟩
  obtain ⟨rfl, rfl⟩ | ⟨tree, rfl, derives, readable⟩ := readable
  · rw [if_pos (by simp [ends])]
    simp only [List.nil_append, reads_bind, reads_pure, reads_symbol]
    exact ⟨none, _, ⟨rfl, rfl⟩, semicolon, rest, ⟨rfl, ends⟩, rfl, rfl⟩
  · have reads := readable fewer (semicolon :: rest) (by omega)
      (endsExpression_of_symbol ends rfl rest)
    rw [if_neg (derives.begins.not_symbol rfl _)]
    simp only [reads_bind, reads_map, reads_pure, reads_symbol]
    exact ⟨some tree, _, ⟨tree, reads, rfl⟩, semicolon, rest, ⟨rfl, ends⟩, rfl, rfl⟩

theorem reads_jumpStatement {jump : Keyword} {node : Span → Stmt} {word semicolon : Token}
    {rest : List Token} (ends : semicolon.kind = .symbol .semicolon) :
    (jumpStatement jump node).Reads (word :: semicolon :: rest) (node word.span) rest := by
  simp only [jumpStatement, Grammar.semicolon, reads_bind, reads_skip, reads_symbol, reads_pure]
  exact ⟨_, _, ⟨rfl, rfl⟩, semicolon, rest, ⟨rfl, ends⟩, rfl, rfl⟩

theorem readable_break {word semicolon : Token} (sign : word.kind = .keyword .break)
    (ends : semicolon.kind = .symbol .semicolon) :
    Readable (.statement false) [word, semicolon] (Stmt.break word.span) := by
  intro bound rest room _
  apply reads_statement room
  intro fewer _
  simp only [statementOf, reads_bind, reads_peek]
  refine ⟨_, _, ⟨rfl, rfl⟩, ?_⟩
  simp only [List.head?_cons, Option.map_some, sign]
  exact reads_jumpStatement ends

theorem readable_continue {word semicolon : Token} (sign : word.kind = .keyword .continue)
    (ends : semicolon.kind = .symbol .semicolon) :
    Readable (.statement false) [word, semicolon] (Stmt.continue word.span) := by
  intro bound rest room _
  apply reads_statement room
  intro fewer _
  simp only [statementOf, reads_bind, reads_peek]
  refine ⟨_, _, ⟨rfl, rfl⟩, ?_⟩
  simp only [List.head?_cons, Option.map_some, sign]
  exact reads_jumpStatement ends

theorem readable_block {opening : Token} {tokens : List Token} {statements : List Stmt}
    (derives : Derives .body (opening :: tokens) statements)
    (readable : Readable .body (opening :: tokens) statements) :
    Readable (.statement false) (opening :: tokens) (Stmt.block statements opening.span) := by
  intro bound rest room _
  obtain ⟨_, _, ⟨⟩, opens⟩ := derives.begins
  rw [isSymbol_iff] at opens
  apply reads_statement room
  intro fewer enough
  have reads := readable fewer rest "function" (by rw [List.length_cons]; omega)
  simp only [functionBody, reads_bind, reads_symbol, List.cons_append] at reads
  obtain ⟨_, _, ⟨⟨⟩, _⟩, readsRest⟩ := reads
  simp only [statementOf, reads_bind, reads_peek]
  refine ⟨_, _, ⟨rfl, rfl⟩, ?_⟩
  simp only [List.head?_cons, Option.map_some, opens, blockStatement, reads_bind, reads_skip,
    reads_pure]
  exact ⟨_, _, ⟨rfl, rfl⟩, statements, rest, readsRest, rfl, rfl⟩

/-! ## Branches and loops -/

theorem readable_conditional {dangling : Bool} {word opening closing : Token}
    {between tokens : List Token} {condition : Expr} {branch : Stmt}
    (sign : word.kind = .keyword .if) (opens : opening.kind = .symbol .leftParen)
    (readableTest : Readable .expression between condition)
    (closes : closing.kind = .symbol .rightParen)
    (readableBranch : Readable (.statement dangling) tokens branch) :
    Readable (.statement true) (word :: opening :: (between ++ closing :: tokens))
      (Stmt.conditional condition branch none word.span) := by
  intro bound rest room noElse
  apply reads_statement room
  intro fewer enough
  simp only [List.length_append, List.length_cons] at enough
  have readsTest := readableTest fewer (closing :: (tokens ++ rest)) (by omega)
    (endsExpression_of_symbol closes rfl _)
  have readsBranch := readableBranch fewer rest (by omega) fun _ => noElse rfl
  simp only [statementOf, reads_bind, reads_peek]
  refine ⟨_, _, ⟨rfl, rfl⟩, ?_⟩
  simp only [List.head?_cons, Option.map_some, sign, List.cons_append, List.append_assoc,
    ifStatement, reads_bind, reads_skip, reads_symbol, reads_optional]
  refine ⟨_, _, ⟨rfl, rfl⟩, opening, _, ⟨rfl, opens⟩, condition, _, readsTest, closing, _,
    ⟨rfl, closes⟩, branch, rest, readsBranch, none, rest, .inr ⟨noElse rfl, rfl, rfl⟩, ?_⟩
  simp only [reads_bind, reads_pure]
  exact ⟨none, rest, ⟨rfl, rfl⟩, rfl, rfl⟩

theorem readable_conditionalElse {dangling : Bool} {word opening closing mark : Token}
    {between left right : List Token} {condition : Expr} {branch otherwise : Stmt}
    (sign : word.kind = .keyword .if) (opens : opening.kind = .symbol .leftParen)
    (readableTest : Readable .expression between condition)
    (closes : closing.kind = .symbol .rightParen)
    (readableBranch : Readable (.statement false) left branch)
    (elseSign : mark.kind = .keyword .else)
    (readableOther : Readable (.statement dangling) right otherwise) :
    Readable (.statement dangling)
      (word :: opening :: (between ++ closing :: (left ++ mark :: right)))
      (Stmt.conditional condition branch (some otherwise) word.span) := by
  intro bound rest room noElse
  apply reads_statement room
  intro fewer enough
  simp only [List.length_append, List.length_cons] at enough
  have readsTest := readableTest fewer (closing :: (left ++ mark :: (right ++ rest))) (by omega)
    (endsExpression_of_symbol closes rfl _)
  have readsBranch := readableBranch fewer (mark :: (right ++ rest)) (by omega) (by simp)
  have readsOther := readableOther fewer rest (by omega) noElse
  simp only [statementOf, reads_bind, reads_peek]
  refine ⟨_, _, ⟨rfl, rfl⟩, ?_⟩
  simp only [List.head?_cons, Option.map_some, sign, List.cons_append, List.append_assoc,
    ifStatement, reads_bind, reads_skip, reads_symbol, reads_optional]
  refine ⟨_, _, ⟨rfl, rfl⟩, opening, _, ⟨rfl, opens⟩, condition, _, readsTest, closing, _,
    ⟨rfl, closes⟩, branch, _, readsBranch, some mark, _,
    .inl ⟨mark, rfl, isKeyword_iff.mpr elseSign, rfl⟩, ?_⟩
  simp only [reads_bind, reads_map, reads_pure]
  exact ⟨some otherwise, rest, ⟨otherwise, readsOther, rfl⟩, rfl, rfl⟩

theorem readable_whileLoop {dangling : Bool} {word opening closing : Token}
    {between tokens : List Token} {condition : Expr} {body : Stmt}
    (sign : word.kind = .keyword .while) (opens : opening.kind = .symbol .leftParen)
    (readableTest : Readable .expression between condition)
    (closes : closing.kind = .symbol .rightParen)
    (readableBody : Readable (.statement dangling) tokens body) :
    Readable (.statement dangling) (word :: opening :: (between ++ closing :: tokens))
      (Stmt.loop condition body none word.span) := by
  intro bound rest room noElse
  apply reads_statement room
  intro fewer enough
  simp only [List.length_append, List.length_cons] at enough
  have readsTest := readableTest fewer (closing :: (tokens ++ rest)) (by omega)
    (endsExpression_of_symbol closes rfl _)
  have readsBody := readableBody fewer rest (by omega) noElse
  simp only [statementOf, reads_bind, reads_peek]
  refine ⟨_, _, ⟨rfl, rfl⟩, ?_⟩
  simp only [List.head?_cons, Option.map_some, sign, List.cons_append, List.append_assoc,
    whileStatement, reads_bind, reads_skip, reads_symbol, reads_pure]
  exact ⟨_, _, ⟨rfl, rfl⟩, opening, _, ⟨rfl, opens⟩, condition, _, readsTest, closing, _,
    ⟨rfl, closes⟩, body, rest, readsBody, rfl, rfl⟩

/-! ## Clauses of `for` statements -/

theorem readable_startAbsent {semicolon : Token} (ends : semicolon.kind = .symbol .semicolon) :
    Readable .forStart [semicolon] none := by
  intro bound rest _
  simp only [forInitializer, List.singleton_append, reads_bind, reads_optionalSymbol]
  exact ⟨some semicolon, rest, .inl ⟨semicolon, rfl, ends, rfl⟩, reads_pure.mpr ⟨rfl, rfl⟩⟩

theorem readable_startVariable {tokens : List Token} {tree : Stmt}
    (derives : Derives .varDeclaration tokens tree)
    (readable : Readable .varDeclaration tokens tree) : Readable .forStart tokens (some tree) := by
  intro bound rest room
  have reads := readable bound rest room
  obtain ⟨word, others, rfl, isVar⟩ := derives.begins
  rw [isKeyword_iff] at isVar
  simp only [forInitializer, reads_bind, reads_optionalSymbol]
  refine ⟨none, _, .inr ⟨by simp [isVar, Token.Kind.isSymbol], rfl, rfl⟩, ?_⟩
  simp only [reads_bind, reads_sees]
  refine ⟨_, _, ⟨rfl, rfl⟩, ?_⟩
  rw [if_pos (by simp [isVar]), reads_map]
  exact ⟨tree, reads, rfl⟩

theorem readable_startExpression {tokens : List Token} {tree : Stmt}
    (derives : Derives .expressionStatement tokens tree)
    (readable : Readable .expressionStatement tokens tree) :
    Readable .forStart tokens (some tree) := by
  intro bound rest room
  have reads := readable bound rest room
  obtain ⟨first, others, rfl, opens, _⟩ := derives.begins
  simp only [forInitializer, reads_bind, reads_optionalSymbol]
  refine ⟨none, _, .inr ⟨?_, rfl, rfl⟩, ?_⟩
  · rw [List.cons_append, avoids_cons, Bool.eq_false_iff]
    intro kind
    rw [isSymbol_iff.mp kind] at opens
    cases opens
  · simp only [reads_bind, reads_sees]
    refine ⟨_, _, ⟨rfl, rfl⟩, ?_⟩
    rw [if_neg, reads_map]
    · exact ⟨tree, reads, rfl⟩
    · intro isVar
      have kind : first.kind = .keyword .var := by simpa using isVar
      rw [kind] at opens
      cases opens

/-- The condition of a `for` statement is read before its semicolon. -/
theorem reads_forCondition {tokens : List Token} {semicolon : Token} {condition : Option Expr}
    (readable : Readable (.optional .expression) tokens condition) (bound : Nat)
    (rest : List Token) (room : 4 * tokens.length ≤ bound + 1)
    (ends : semicolon.kind = .symbol .semicolon) :
    (forCondition (expression bound)).Reads (tokens ++ semicolon :: rest)
      (condition.getD (.literal (.boolean true) semicolon.span)) (semicolon :: rest) := by
  simp only [forCondition, reads_bind, reads_sees]
  refine ⟨_, _, ⟨rfl, rfl⟩, ?_⟩
  obtain ⟨rfl, rfl⟩ | ⟨tree, rfl, derives, readable⟩ := readable
  · rw [if_pos (by simp [ends])]
    simp
  · rw [if_neg (derives.begins.not_symbol rfl _)]
    exact readable bound _ room (endsExpression_of_symbol ends rfl rest)

/-- The increment of a `for` statement is read before its closing parenthesis. -/
theorem reads_forIncrement {tokens : List Token} {closing : Token} {increment : Option Expr}
    (readable : Readable (.optional .expression) tokens increment) (bound : Nat)
    (rest : List Token) (room : 4 * tokens.length ≤ bound + 1)
    (closes : closing.kind = .symbol .rightParen) :
    (forIncrement (expression bound)).Reads (tokens ++ closing :: rest) increment
      (closing :: rest) := by
  simp only [forIncrement, reads_bind, reads_sees]
  refine ⟨_, _, ⟨rfl, rfl⟩, ?_⟩
  obtain ⟨rfl, rfl⟩ | ⟨tree, rfl, derives, readable⟩ := readable
  · rw [if_pos (by simp [closes])]
    simp
  · rw [if_neg (derives.begins.not_symbol rfl _), reads_map]
    exact ⟨tree, readable bound _ room (endsExpression_of_symbol closes rfl rest), rfl⟩

theorem readable_forLoop {dangling : Bool} {word opening semicolon closing : Token}
    {first second third tokens : List Token} {start : Option Stmt}
    {condition increment : Option Expr} {body : Stmt} (sign : word.kind = .keyword .for)
    (opens : opening.kind = .symbol .leftParen) (readableStart : Readable .forStart first start)
    (readableTest : Readable (.optional .expression) second condition)
    (ends : semicolon.kind = .symbol .semicolon)
    (readableStep : Readable (.optional .expression) third increment)
    (closes : closing.kind = .symbol .rightParen)
    (readableBody : Readable (.statement dangling) tokens body) :
    Readable (.statement dangling)
      (word :: opening :: (first ++ (second ++ semicolon :: (third ++ closing :: tokens))))
      (meaningOfFor start
        (condition.getD (.literal (.boolean true) semicolon.span)) increment body word.span) := by
  intro bound rest room noElse
  apply reads_statement room
  intro fewer enough
  simp only [List.length_append, List.length_cons] at enough
  have readsStart := readableStart fewer
    (second ++ semicolon :: (third ++ closing :: (tokens ++ rest))) (by omega)
  have readsTest := reads_forCondition readableTest fewer (third ++ closing :: (tokens ++ rest))
    (by omega) ends
  have readsStep := reads_forIncrement readableStep fewer (tokens ++ rest) (by omega) closes
  have readsBody := readableBody fewer rest (by omega) noElse
  simp only [statementOf, reads_bind, reads_peek]
  refine ⟨_, _, ⟨rfl, rfl⟩, ?_⟩
  simp only [List.head?_cons, Option.map_some, sign, List.cons_append, List.append_assoc,
    forStatement, Grammar.semicolon, reads_bind, reads_skip, reads_symbol, reads_pure,
    forLoop_eq_meaningOfFor]
  exact ⟨_, _, ⟨rfl, rfl⟩, opening, _, ⟨rfl, opens⟩, start, _, readsStart, _, _, readsTest,
    semicolon, _, ⟨rfl, ends⟩, increment, _, readsStep, closing, _, ⟨rfl, closes⟩, body, rest,
    readsBody, rfl, rfl⟩

/-! ## All phrases -/

/-- Every phrase is read. -/
theorem Derives.readable {phrase : Phrase} {tokens : List Token} {tree : phrase.Tree}
    (derives : Derives phrase tokens tree) : Readable phrase tokens tree := by
  induction derives with
  | operation inner readable => exact readable_operation inner readable
  | assignVariable _ sign _ readableTarget readableValue =>
      exact readable_assignVariable readableTarget sign readableValue
  | assignProperty _ sign _ readableTarget readableValue =>
      exact readable_assignProperty readableTarget sign readableValue
  | tighter inner readable => exact readable_tighter inner readable
  | joined _ sign _ readableLeft readableRight =>
      exact readable_joined readableLeft sign readableRight
  | prefixed sign _ readable => exact readable_prefixed sign readable
  | operand inner readable => exact readable_operand inner readable
  | primary inner readable => exact readable_primary inner readable
  | call _ opens _ closes readableCallee readableArguments =>
      exact readable_call readableCallee opens readableArguments closes
  | property _ sign identifier readable => exact readable_property readable sign identifier
  | constant sign => exact readable_constant sign
  | reference identifier => exact readable_reference identifier
  | this sign => exact readable_this sign
  | super sign point identifier => exact readable_super sign point identifier
  | grouping opens _ closes readable => exact readable_grouping opens readable closes
  | lambda sign _ readable => exact readable_lambda sign readable
  | parameter identifier => exact readable_parameter identifier
  | function opens _ closes _ readableNames readableBody =>
      exact readable_function opens readableNames closes readableBody
  | body opens _ closes readable => exact readable_body opens readable closes
  | method identifier rest readable => exact readable_method identifier rest readable
  | getter identifier body readable => exact readable_getter identifier body readable
  | noInitializer => exact .inl ⟨rfl, rfl⟩
  | initializer sign _ readable => exact .inr ⟨_, _, _, rfl, sign, rfl, readable⟩
  | varDeclaration _ identifier _ ends readable =>
      exact readable_varDeclaration identifier readable ends
  | ofVariable inner readable => exact readable_ofVariable inner readable
  | ofFunction sign identifier _ readable => exact readable_ofFunction sign identifier readable
  | ofClass sign identifier clause opens _ closes readable =>
      exact readable_ofClass sign identifier clause opens readable closes
  | ofStatement inner readable => exact readable_ofStatement inner readable
  | expressionStatement _ ends readable => exact readable_expressionStatement readable ends
  | ofExpression inner readable => exact readable_ofExpression inner readable
  | print sign _ ends readable => exact readable_print sign readable ends
  | «return» sign _ ends readable => exact readable_return sign readable ends
  | «break» sign ends => exact readable_break sign ends
  | «continue» sign ends => exact readable_continue sign ends
  | block inner readable => exact readable_block inner readable
  | conditional sign opens _ closes _ readableTest readableBranch =>
      exact readable_conditional sign opens readableTest closes readableBranch
  | conditionalElse sign opens _ closes _ elseSign _ readableTest readableBranch readableOther =>
      exact readable_conditionalElse sign opens readableTest closes readableBranch elseSign
        readableOther
  | whileLoop sign opens _ closes _ readableTest readableBody =>
      exact readable_whileLoop sign opens readableTest closes readableBody
  | startAbsent ends => exact readable_startAbsent ends
  | startVariable inner readable => exact readable_startVariable inner readable
  | startExpression inner readable => exact readable_startExpression inner readable
  | forLoop sign opens _ _ ends _ closes _ readableStart readableTest readableStep readableBody =>
      exact readable_forLoop sign opens readableStart readableTest ends readableStep closes
        readableBody
  | none => exact .inl ⟨rfl, rfl⟩
  | some inner readable => exact .inr ⟨_, rfl, inner, readable⟩
  | done => exact readable_done
  | again first _ readableFirst readableOthers =>
      exact readable_again first readableFirst readableOthers
  | last inner readable => exact readable_last inner readable
  | comma first separates _ readableFirst readableOthers =>
      exact readable_comma first readableFirst separates readableOthers
  | empty => exact readable_empty
  | list _ short readable => exact readable_list readable short

end Lox.Grammar
