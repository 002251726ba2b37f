import Lox.Proofs.Lexeme.Cut
import Lox.Proofs.Printing.Recovery

/-!
Contract: the printed tree is unambiguous.

Names in a tree that was read from a source are spelled like identifiers, and quoted texts contain
no quote. So, as long as its numbers are finite, the pieces of the tree are legible: they are found
again from the printed text, and the tree from its pieces.

Main statement: `Program.bare_of_printed`.

Owns: what is printed of sources. Does not own: places and addresses.
-/

set_option autoImplicit false

namespace Lox

open Printing

/-! ## Spelling of sources -/

section Sources

open Lexeme (Lexed Leads)

theorem leads_of_lexed {text : List Char}
    {lexemes : List (List Char × Except ScanError.Cause Token.Kind)} (lexed : Lexed text lexemes) :
    ∀ lexeme ∈ lexemes, ∃ after, Leads lexeme.1 after lexeme.2 := by
  induction lexed with
  | finish _ => exact nofun
  | lexeme _ leads _ inductionHypothesis =>
      exact List.forall_mem_cons.mpr ⟨⟨_, leads⟩, inductionHypothesis⟩

theorem spells_of_shows {token : Token} {lexeme : List Char × Except ScanError.Cause Token.Kind}
    (shown : Item.Shows (.ok token) lexeme) {after : List Char}
    (leads : Leads lexeme.1 after lexeme.2) :
    Lexeme.Spells token.lexeme.toList token.kind := by
  obtain ⟨covered, outcome⟩ := lexeme
  obtain ⟨kind, written⟩ := shown
  obtain rfl : .ok token.kind = outcome := kind
  rw [written token rfl, String.toList_ofList]
  cases leads with
  | token found => exact found.spells

/-- The tokens of a source are written as their kinds are spelled. -/
theorem spelled_scan (source : String) : Spelled (Scan.of source).tokens := by
  obtain ⟨lexemes, only, front, mark, items, isMark, shown⟩ := (Scans.ofString source).lexed
  have leads := leads_of_lexed ((only lexemes).mpr rfl)
  have inFront : ∀ token, .ok token ∈ front → Lexeme.Spells token.lexeme.toList token.kind := by
    clear only items
    induction shown with
    | nil => exact nofun
    | cons first _ inductionHypothesis =>
        intro token member
        obtain rfl | later := List.mem_cons.mp member
        · obtain ⟨_, leading⟩ := leads _ List.mem_cons_self
          exact spells_of_shows first leading
        · exact inductionHypothesis (fun lexeme there => leads lexeme (.tail _ there)) token later
  intro token member
  obtain ⟨item, among, same⟩ := List.mem_filterMap.mp member
  cases item with
  | error error => cases same
  | ok found =>
      obtain rfl := Option.some.inj same
      rw [items] at among
      obtain there | last := List.mem_append.mp among
      · exact .inr (inFront found there)
      · obtain rfl : found = mark := by simpa using last
        exact .inl isMark

end Sources

/-! ## Numbers of a tree -/

mutual

/-- The numbers that are literals in the expression, at every depth. -/
def Expr.numbers : Expr → List Float
  | .literal (.number value) _ => [value]
  | .literal _ _ => []
  | .grouping inner _ => inner.numbers
  | .variable _ => []
  | .assign _ value _ => value.numbers
  | .unary _ operand _ => operand.numbers
  | .binary _ left right _ => left.numbers ++ right.numbers
  | .logical _ left right _ => left.numbers ++ right.numbers
  | .call callee arguments _ => callee.numbers ++ numbersOfExprs arguments
  | .get object _ => object.numbers
  | .set object _ value _ => object.numbers ++ value.numbers
  | .this _ _ => []
  | .super _ _ _ => []
  | .lambda function => numbersOfFunction function

/-- The numbers in the expressions. -/
def numbersOfExprs : List Expr → List Float
  | [] => []
  | expr :: rest => expr.numbers ++ numbersOfExprs rest

/-- The numbers in the expression, if there is one. -/
def numbersOfOptionalExpr : Option Expr → List Float
  | none => []
  | some expr => expr.numbers

/-- The numbers that are literals in the statement, at every depth. -/
def Stmt.numbers : Stmt → List Float
  | .expression value _ => value.numbers
  | .print value _ => value.numbers
  | .var _ initializer _ => numbersOfOptionalExpr initializer
  | .block statements _ => numbersOfStmts statements
  | .conditional condition thenBranch elseBranch _ =>
      condition.numbers ++ (thenBranch.numbers ++ numbersOfOptionalStmt elseBranch)
  | .loop condition body increment _ =>
      condition.numbers ++ (body.numbers ++ numbersOfOptionalExpr increment)
  | .function declaration _ => numbersOfFunction declaration
  | .return value _ => numbersOfOptionalExpr value
  | .class _ _ methods _ => numbersOfFunctions methods
  | .break _ => []
  | .continue _ => []

/-- The numbers in the statement, if there is one. -/
def numbersOfOptionalStmt : Option Stmt → List Float
  | none => []
  | some stmt => stmt.numbers

/-- The numbers in the statements. -/
def numbersOfStmts : List Stmt → List Float
  | [] => []
  | stmt :: rest => stmt.numbers ++ numbersOfStmts rest

/-- The numbers in the body of the function. -/
def numbersOfFunction : FunctionDeclaration → List Float
  | ⟨_, _, body, _⟩ => numbersOfStmts body

/-- The numbers in the bodies of the functions. -/
def numbersOfFunctions : List FunctionDeclaration → List Float
  | [] => []
  | function :: rest => numbersOfFunction function ++ numbersOfFunctions rest

end

/-- The numbers that are literals in the program. -/
def Program.numbers (program : Program) : List Float := numbersOfStmts program.statements

/-! ## Legible trees -/

section Legible

variable {tokens : List Token}

theorem beginsNumber_of_isLetter {first : Char} (letter : Lexeme.isLetter first = true)
    (rest : List Char) : beginsNumber (first :: rest) = false := by
  unfold beginsNumber
  split
  · next same =>
      obtain rfl := (List.cons.inj same).1
      cases letter
  · next same =>
      obtain rfl := (List.cons.inj same).1
      exact Lexeme.isDigit_of_isLetter letter
  · next same => cases same

theorem isWord_of_spells {text : String} (spells : Lexeme.Spells text.toList .identifier) :
    IsWord text := by
  generalize written : text.toList = chars at spells
  cases spells with
  | @identifier first tail letter others _ =>
      rw [IsWord, written]
      have solid {character : Char} (inWord : Lexeme.isWordCharacter character = true) :
          character ∉ marks := Lexeme.notMem_of_test (by decide) inWord
      refine ⟨nofun, List.forall_mem_cons.mpr ⟨?_, fun character member => ?_⟩, ?_⟩
      · exact solid ((Lexeme.isWordCharacter_iff first).mpr (.inl letter))
      · exact solid ((Lexeme.isWordCharacter_iff character).mpr (others character member))
      · exact beginsNumber_of_isLetter ((Lexeme.isLetter_iff first).mpr letter) tail

theorem legible_word {text : String} (isWord : IsWord text) : (Piece.word text).Legible := by
  rw [Piece.word, Piece.Legible]
  exact isWord

theorem legible_node {head : String} (isWord : IsWord head) {parts : List Piece}
    (legible : ∀ part ∈ parts, part.Legible) : (Piece.node head parts).Legible := by
  rw [Piece.node, Piece.Legible, legiblePieces_iff]
  exact List.forall_mem_cons.mpr ⟨legible_word isWord, legible⟩

theorem legible_name (spelled : Spelled tokens) {name : Name} (names : name.IsIdentifier tokens) :
    (Piece.word name.text).Legible :=
  legible_word (isWord_of_spells (spelled.identifier names))

theorem legible_parametersPiece (spelled : Spelled tokens) {parameters : List Name}
    (names : ∀ name ∈ parameters, name.IsIdentifier tokens) :
    (parametersPiece parameters).Legible := by
  rw [parametersPiece, Piece.Legible, legiblePieces_iff]
  exact List.forall_mem_map.mpr fun name member => legible_name spelled (names name member)

theorem legible_literal (spelled : Spelled tokens) {value : Literal} {span : Span}
    (formed : (Expr.literal value span).WellFormed tokens)
    (finite : ∀ number ∈ (Expr.literal value span).numbers, number.isFinite = true) :
    value.piece.Legible := by
  cases value with
  | nil => exact legible_word (by decide)
  | boolean value => cases value <;> exact legible_word (by decide)
  | number value =>
      rw [Literal.piece, Piece.Legible]
      exact finite value (by simp [Expr.numbers])
  | string value =>
      rw [Literal.piece, Piece.Legible]
      obtain ⟨token, member, _, constant | ⟨_, impossible⟩⟩ := formed
      · have spells := spelled token member
        generalize token.lexeme.toList = text at spells
        generalize token.kind = kind at constant spells
        cases constant
        obtain impossible | spells := spells
        · cases impossible
        · cases spells with
          | string inside => rwa [Atom.Legible, String.toList_ofList]
      · cases impossible

theorem legible_superclassPieces (spelled : Spelled tokens) {superclass : Option Reference}
    (formed : ∀ reference ∈ superclass, reference.WellFormed tokens) :
    ∀ piece ∈ superclassPieces superclass, piece.Legible := by
  cases superclass with
  | none => exact nofun
  | some reference =>
      have mark : (Piece.word "<").Legible := legible_word (by decide)
      simp [superclassPieces, mark, legible_name spelled (formed reference rfl).2]

mutual

/-- The piece of an expression that was read is legible. -/
theorem Expr.legible_piece (spelled : Spelled tokens) : (expr : Expr) → expr.WellFormed tokens →
    (∀ number ∈ expr.numbers, number.isFinite = true) → expr.piece.Legible
  | .literal _ _, formed, finite => legible_literal spelled formed finite
  | .grouping inner _, formed, finite =>
      legible_node (by decide) (by simp [inner.legible_piece spelled formed finite])
  | .variable _, formed, _ => legible_name spelled formed.2
  | .assign _ value _, formed, finite =>
      legible_node (by decide) (by
        simp [legible_name spelled formed.1.2, value.legible_piece spelled formed.2 finite])
  | .unary operator operand _, formed, finite => by
      have isWord : IsWord operator.text := by cases operator <;> decide
      exact legible_node isWord (by simp [operand.legible_piece spelled formed.2 finite])
  | .binary operator left right _, formed, finite => by
      have isWord : IsWord operator.text := by cases operator <;> decide
      obtain ⟨finiteLeft, finiteRight⟩ := List.forall_mem_append.mp finite
      exact legible_node isWord (by
        simp [left.legible_piece spelled formed.2.1 finiteLeft,
          right.legible_piece spelled formed.2.2 finiteRight])
  | .logical operator left right _, formed, finite => by
      have isWord : IsWord operator.text := by cases operator <;> decide
      obtain ⟨finiteLeft, finiteRight⟩ := List.forall_mem_append.mp finite
      exact legible_node isWord (by
        simp [left.legible_piece spelled formed.2.1 finiteLeft,
          right.legible_piece spelled formed.2.2 finiteRight])
  | .call callee arguments _, formed, finite => by
      obtain ⟨finiteCallee, finiteArguments⟩ := List.forall_mem_append.mp finite
      exact legible_node (by decide) (List.forall_mem_cons.mpr
        ⟨callee.legible_piece spelled formed.1 finiteCallee,
          legible_piecesOfExprs spelled arguments formed.2.2 finiteArguments⟩)
  | .get object _, formed, finite =>
      legible_node (by decide) (by
        simp [object.legible_piece spelled formed.1 finite, legible_name spelled formed.2])
  | .set object _ value _, formed, finite => by
      obtain ⟨finiteObject, finiteValue⟩ := List.forall_mem_append.mp finite
      exact legible_node (by decide) (by
        simp [object.legible_piece spelled formed.1 finiteObject,
          legible_name spelled formed.2.1, value.legible_piece spelled formed.2.2 finiteValue])
  | .this _ _, _, _ => legible_word (by decide)
  | .super _ _ _, formed, _ =>
      legible_node (by decide) (by simp [legible_name spelled formed.2])
  | .lambda ⟨_, parameters, body, _⟩, formed, finite =>
      legible_node (by decide) (List.forall_mem_cons.mpr
        ⟨legible_parametersPiece spelled formed.2.2.1.2,
          legible_piecesOfStmts spelled body formed.2.2.2 finite⟩)

theorem legible_piecesOfExprs (spelled : Spelled tokens) : (exprs : List Expr) →
    wellFormedExprs tokens exprs → (∀ number ∈ numbersOfExprs exprs, number.isFinite = true) →
    ∀ piece ∈ piecesOfExprs exprs, piece.Legible
  | [], _, _ => nofun
  | expr :: rest, formed, finite => by
      obtain ⟨finiteFirst, finiteRest⟩ := List.forall_mem_append.mp finite
      exact List.forall_mem_cons.mpr ⟨expr.legible_piece spelled formed.1 finiteFirst,
        legible_piecesOfExprs spelled rest formed.2 finiteRest⟩

theorem legible_piecesOfOptionalExpr (spelled : Spelled tokens) : (expr : Option Expr) →
    wellFormedOptionalExpr tokens expr →
    (∀ number ∈ numbersOfOptionalExpr expr, number.isFinite = true) →
    ∀ piece ∈ piecesOfOptionalExpr expr, piece.Legible
  | none, _, _ => nofun
  | some expr, formed, finite =>
      List.forall_mem_singleton.mpr (expr.legible_piece spelled formed finite)

/-- The piece of a statement that was read is legible. -/
theorem Stmt.legible_piece (spelled : Spelled tokens) : (stmt : Stmt) → stmt.WellFormed tokens →
    (∀ number ∈ stmt.numbers, number.isFinite = true) → stmt.piece.Legible
  | .expression value _, formed, finite =>
      legible_node (by decide) (by simp [value.legible_piece spelled formed finite])
  | .print value _, formed, finite =>
      legible_node (by decide) (by simp [value.legible_piece spelled formed finite])
  | .var _ none _, formed, _ =>
      legible_node (by decide) (by simp [legible_name spelled formed.1])
  | .var _ (some initializer) _, formed, finite => by
      have mark : (Piece.word "=").Legible := legible_word (by decide)
      exact legible_node (by decide) (by
        simp [legible_name spelled formed.1, mark,
          initializer.legible_piece spelled formed.2 finite])
  | .block statements _, formed, finite =>
      legible_node (by decide) (legible_piecesOfStmts spelled statements formed finite)
  | .conditional condition thenBranch none _, formed, finite => by
      obtain ⟨finiteCondition, finiteBranches⟩ := List.forall_mem_append.mp finite
      obtain ⟨finiteThen, _⟩ := List.forall_mem_append.mp finiteBranches
      exact legible_node (by decide) (by
        simp [condition.legible_piece spelled formed.1 finiteCondition,
          thenBranch.legible_piece spelled formed.2.1.1 finiteThen])
  | .conditional condition thenBranch (some elseBranch) _, formed, finite => by
      obtain ⟨finiteCondition, finiteBranches⟩ := List.forall_mem_append.mp finite
      obtain ⟨finiteThen, finiteElse⟩ := List.forall_mem_append.mp finiteBranches
      exact legible_node (by decide) (by
        simp [condition.legible_piece spelled formed.1 finiteCondition,
          thenBranch.legible_piece spelled formed.2.1.1 finiteThen,
          elseBranch.legible_piece spelled formed.2.2.1 finiteElse])
  | .loop condition body increment _, formed, finite => by
      obtain ⟨finiteCondition, finiteParts⟩ := List.forall_mem_append.mp finite
      obtain ⟨finiteBody, finiteIncrement⟩ := List.forall_mem_append.mp finiteParts
      exact legible_node (by decide) (List.forall_mem_cons.mpr
        ⟨condition.legible_piece spelled formed.1 finiteCondition, List.forall_mem_cons.mpr
          ⟨body.legible_piece spelled formed.2.1.1 finiteBody,
            legible_piecesOfOptionalExpr spelled increment formed.2.2 finiteIncrement⟩⟩)
  | .function declaration _, formed, finite =>
      legible_pieceOfFunction spelled declaration formed.1 formed.2.2 finite
  | .return value _, formed, finite =>
      legible_node (by decide) (legible_piecesOfOptionalExpr spelled value formed finite)
  | .class _ superclass methods _, formed, finite =>
      legible_node (by decide) (List.forall_mem_cons.mpr ⟨legible_name spelled formed.1,
        List.forall_mem_append.mpr ⟨legible_superclassPieces spelled formed.2.1,
          legible_piecesOfFunctions spelled methods formed.2.2 finite⟩⟩)
  | .break _, _, _ => legible_node (by decide) nofun
  | .continue _, _, _ => legible_node (by decide) nofun

theorem legible_piecesOfStmts (spelled : Spelled tokens) : (stmts : List Stmt) →
    wellFormedStmts tokens stmts → (∀ number ∈ numbersOfStmts stmts, number.isFinite = true) →
    ∀ piece ∈ piecesOfStmts stmts, piece.Legible
  | [], _, _ => nofun
  | stmt :: rest, formed, finite => by
      obtain ⟨finiteFirst, finiteRest⟩ := List.forall_mem_append.mp finite
      exact List.forall_mem_cons.mpr ⟨stmt.legible_piece spelled formed.1 finiteFirst,
        legible_piecesOfStmts spelled rest formed.2 finiteRest⟩

theorem legible_pieceOfFunction (spelled : Spelled tokens) : (function : FunctionDeclaration) →
    function.name.IsIdentifier tokens → wellFormedFunction tokens function →
    (∀ number ∈ numbersOfFunction function, number.isFinite = true) →
    (pieceOfFunction function).Legible
  | ⟨_, parameters, body, isGetter⟩, names, formed, finite => by
      have legibleBody := legible_piecesOfStmts spelled body formed.2 finite
      have legibleName := legible_name spelled names
      cases isGetter with
      | true => exact legible_node (by decide) (List.forall_mem_cons.mpr ⟨legibleName, legibleBody⟩)
      | false =>
          exact legible_node (by decide) (List.forall_mem_cons.mpr ⟨legibleName,
            List.forall_mem_cons.mpr
              ⟨legible_parametersPiece spelled formed.1.2, legibleBody⟩⟩)

theorem legible_piecesOfFunctions (spelled : Spelled tokens) :
    (methods : List FunctionDeclaration) → wellFormedMethods tokens methods →
    (∀ number ∈ numbersOfFunctions methods, number.isFinite = true) →
    ∀ piece ∈ piecesOfFunctions methods, piece.Legible
  | [], _, _ => nofun
  | method :: rest, formed, finite => by
      obtain ⟨finiteFirst, finiteRest⟩ := List.forall_mem_append.mp finite
      exact List.forall_mem_cons.mpr
        ⟨legible_pieceOfFunction spelled method formed.1.1 formed.1.2.2 finiteFirst,
          legible_piecesOfFunctions spelled rest formed.2 finiteRest⟩

end

end Legible

/-! ## Programs -/

/-- The program of a source is well formed over tokens that are written as they are spelled. -/
theorem ParsedSource.exists_tokens {source : String} {program : Program}
    (read : (of source).program = some program) :
    ∃ tokens, Spelled tokens ∧ wellFormedStmts tokens program.statements := by
  unfold of at read
  simp only [] at read
  split at read
  · next found parsed =>
      refine ⟨_, spelled_scan source, ?_⟩
      split at read
      · obtain rfl := Option.some.inj read
        exact Program.wellFormed_of_ofTokens parsed
      · cases read
  · cases read

/-- Programs that are read from sources and printed alike are one program, apart from places and
addresses, if all their numbers are finite. -/
theorem Program.bare_of_printed {source otherSource : String} {program other : Program}
    (read : (ParsedSource.of source).program = some program)
    (readToo : (ParsedSource.of otherSource).program = some other)
    (finite : ∀ number ∈ program.numbers, number.isFinite = true)
    (finiteToo : ∀ number ∈ other.numbers, number.isFinite = true)
    (same : program.printed = other.printed) : program.bare = other.bare := by
  obtain ⟨tokens, spelled, formed⟩ := ParsedSource.exists_tokens read
  obtain ⟨otherTokens, spelledToo, formedToo⟩ := ParsedSource.exists_tokens readToo
  have pieces : piecesOfStmts program.statements = piecesOfStmts other.statements := by
    refine lines_unique (legible_piecesOfStmts spelled _ formed finite)
      (legible_piecesOfStmts spelledToo _ formedToo finiteToo) ?_
    rw [← program.toList_printed, ← other.toList_printed, same]
  have found := readings_piecesOfStmts spelled program.statements formed
  rw [pieces, readings_piecesOfStmts spelledToo other.statements formedToo] at found
  exact congrArg Program.mk found.symm

/-- A loop without clauses, and a number with more zeros than it needs. -/
def loopWithoutClauses : String :=
  "for (;;) \x7b print \"a (b\"; var c = 1.50; \x7d // endless"

/-- The same loop and the same number, written otherwise. -/
def loopWithCondition : String := "while(true)\x7bprint\"a (b\";var c=01.5;\x7d"

theorem Program.bare_of_printed_loops :
    ∃ program other, (ParsedSource.of loopWithoutClauses).program = some program ∧
      (ParsedSource.of loopWithCondition).program = some other ∧
      program.printed = other.printed ∧ program.bare = other.bare := by
  have isRead : (ParsedSource.of loopWithoutClauses).program.isSome = true := by decide +kernel
  have isReadToo : (ParsedSource.of loopWithCondition).program.isSome = true := by decide +kernel
  obtain ⟨program, read⟩ := Option.isSome_iff_exists.mp isRead
  obtain ⟨other, readToo⟩ := Option.isSome_iff_exists.mp isReadToo
  have checks : (ParsedSource.of loopWithoutClauses).program.any (fun program =>
      (ParsedSource.of loopWithCondition).program.any fun other =>
        program.numbers.all Float.isFinite && (other.numbers.all Float.isFinite &&
          program.printed == other.printed)) = true := by decide +kernel
  simp only [read, readToo, Option.any_some, Bool.and_eq_true, List.all_eq_true,
    beq_iff_eq] at checks
  obtain ⟨finite, finiteToo, same⟩ := checks
  exact ⟨program, other, read, readToo, same,
    bare_of_printed read readToo finite finiteToo same⟩

end Lox
