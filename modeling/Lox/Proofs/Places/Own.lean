import Lox.Proofs.Grammar.Complaints
import Lox.Proofs.Places.Joined

/-!
Contract: the places that a first program can come to talk of.

Take a move that leaves the spans of some tokens in place and no other span. What these
tokens mean is then left in place as a whole, and so is a world before its first program. But
a moved program in a moved world is run to the moved end, so whatever is reported is left in
place too, and its span is one of the tokens' spans. The same goes for the binding of names.
Syntax errors stand at tokens because the parser stays inside its tokens.

Main statement: `Session.diagnostic_span`.

Owns: spans of diagnostics among those of tokens and lexical errors. Does not own: where in
the source these are.
-/

set_option autoImplicit false

namespace Lox

/-! ## Moves that leave some spans in place -/

/-- The span itself if it is one of these, and another one otherwise. -/
def Span.keptAmong (spans : List Span) (span : Span) : Span :=
  if span ∈ spans then span else span.lowered 1

theorem Span.keptAmong_eq_self_iff {spans : List Span} {span : Span} :
    span.keptAmong spans = span ↔ span ∈ spans := by
  unfold keptAmong
  split
  · next among => simp [among]
  · next apart =>
      refine iff_of_false (fun same => ?_) apart
      exact Nat.succ_ne_self span.line (congrArg Span.line same)

/-- Tokens stay where their own spans do. -/
theorem map_moved_of_stays {move : Span → Span} {tokens : List Token}
    (stays : ∀ token ∈ tokens, move token.span = token.span) :
    tokens.map (Token.moved move) = tokens := by
  refine (List.map_congr_left fun token member => ?_).trans (List.map_id' tokens)
  rw [Token.moved, stays token member]

namespace Grammar

/-- Tokens mean at most one program. -/
theorem Derives.unique {tokens : List Token} {first second : List Stmt}
    (one : Derives (.repeated .declaration) tokens first)
    (two : Derives (.repeated .declaration) tokens second) : first = second := by
  have room : 4 * tokens.length ≤ boundFor tokens + 1 := by
    unfold boundFor
    omega
  have same := (declarations_of_derives tokens.length one (Nat.le_refl _) room).symm.trans
    (declarations_of_derives tokens.length two (Nat.le_refl _) room)
  exact (Findings.mk.inj same).1

/-- A program stays where its tokens do. -/
theorem Derives.moved_of_stays {move : Span → Span} {tokens : List Token} {program : Program}
    (derives : Derives (.repeated .declaration) tokens program.statements)
    (stays : ∀ token ∈ tokens, move token.span = token.span) : program.moved move = program := by
  have moved := derives.moved move
  rw [map_moved_of_stays stays] at moved
  have same := moved.unique derives
  simp only [Phrase.moved, ← movedStmts_eq_map] at same
  rw [Program.moved, same]

/-- An expression stays where its tokens do. -/
theorem Derives.expression_moved_of_stays {move : Span → Span} {tokens : List Token} {expr : Expr}
    (derives : Derives .expression tokens expr)
    (stays : ∀ token ∈ tokens, move token.span = token.span) : expr.moved move = expr := by
  have moved := derives.moved move
  rw [map_moved_of_stays stays] at moved
  obtain ⟨first, rest, rfl, _⟩ := derives.begins
  -- With a semicolon behind them, the tokens are a program, and mean at most one.
  let semicolon : Token := ⟨.symbol .semicolon, ";", .nowhere⟩
  have program {found : Expr} (derives : Derives .expression (first :: rest) found) :
      Derives (.repeated .declaration) (first :: (rest ++ [semicolon]) ++ [])
        [.expression found first.span] :=
    .again (.ofStatement (.ofExpression (.expressionStatement derives rfl))) (.done .declaration)
  have same := (program moved).unique (program derives)
  exact (Stmt.expression.inj (List.cons.inj same).1).1

theorem Derives.moved_keptAmong {tokens : List Token} {program : Program}
    (derives : Derives (.repeated .declaration) tokens program.statements) :
    program.moved (Span.keptAmong (tokens.map Token.span)) = program :=
  derives.moved_of_stays fun _ member =>
    Span.keptAmong_eq_self_iff.mpr (List.mem_map_of_mem member)

end Grammar

open Grammar

/-! ## Errors and faults -/

/-- A binding error stands where a token of the program stands. -/
theorem Resolver.error_span {resolver : Resolver} (clean : resolver.errors = [])
    {tokens : List Token} {program : Program}
    (derives : Derives (.repeated .declaration) tokens program.statements) {error : BindingError}
    (member : error ∈ (resolver.resolve program).errors) : error.span ∈ tokens.map Token.span := by
  have moved := resolve_moved (Span.keptAmong (tokens.map Token.span)) clean program
  rw [derives.moved_keptAmong] at moved
  have errors := (Resolution.mk.inj moved).2.1
  have stays := List.map_inj_left.mp ((List.map_id _).trans errors)
  have same := congrArg BindingError.span (stays error member)
  exact Span.keptAmong_eq_self_iff.mp same.symm

/-- A program is bound to a tree that stays where the program does. -/
theorem Resolver.bound_moved {resolver : Resolver} (clean : resolver.errors = [])
    {move : Span → Span} {program : Program} (stays : program.moved move = program) :
    (resolver.resolve program).program.moved move = (resolver.resolve program).program := by
  have moved := resolve_moved move clean program
  rw [stays] at moved
  exact (Resolution.mk.inj moved).1.symm

/-- A fault of a program, in a world that nothing was written for before, stands where the
program itself stays. -/
theorem World.fault_span {move : Span → Span} {world : World} {stmts : List Stmt}
    (stays : movedStmts move stmts = stmts) (fresh : world.moved move #[] = world)
    (follows : world.Follows move) (works : world.outlet = .working) {budget : Nat} {fault : Fault}
    (fails : (world.interpret budget stmts).1 = .failed fault) : move fault.span = fault.span := by
  have moved := interpret_moved move #[] budget follows (endsInPlace_of_working move works) stmts
  rw [stays, fresh] at moved
  have verdict := (Prod.mk.inj moved).1
  rw [fails] at verdict
  exact (congrArg Fault.span (Verdict.failed.inj verdict)).symm

/-- In a first world nothing has a place. -/
theorem World.moved_initial (move : Span → Span) (callLimit : Nat) (clock : Clock) :
    (World.initial callLimit .working clock).moved move #[] =
      World.initial callLimit .working clock := by
  have table : Table.map (Value.moved move) .empty = .empty := rfl
  have forest : Forest.map (Value.moved move) .empty = .empty := by simp [Forest.map, Forest.empty]
  simp [moved, initial, defineNative, Table.map_insert, Value.moved, table, forest]

/-! ## Sources -/

/-- The span is that of a token, comments left out, or of a lexical error. -/
def Scan.Shows (scan : Scan) (span : Span) : Prop :=
  (∃ token ∈ Token.withoutComments scan.tokens, token.span = span) ∨
    ∃ error ∈ scan.errors, error.span = span

/-- Every source has an end mark. -/
theorem Scans.exists_mark {position : Position} {text : List Char} {items : List Item}
    (scans : Scans position text items) :
    ∃ mark ∈ (Scan.ofItems items).tokens, mark.kind = .endOfSource := by
  induction scans with
  | finish skips => exact ⟨_, List.mem_singleton_self _, rfl⟩
  | @lexeme position reached text rest first items skips others inductionHypothesis =>
      obtain ⟨mark, member, ends⟩ := inductionHypothesis
      cases Stream.itemOf (Lexeme.at first rest) reached
          (first :: rest.take (Lexeme.at first rest).extent) with
      | ok token => exact ⟨mark, List.mem_cons_of_mem _ member, ends⟩
      | error error => exact ⟨mark, member, ends⟩

namespace Grammar

/-- What matters to the grammar is among the tokens. -/
theorem Text.tokens_subset (tokens : List Token) :
    (Text.of tokens).tokens ⊆ Token.withoutComments tokens :=
  (List.takeWhile_sublist _).subset

/-- A text ends where a token stands, if it has an end mark. -/
theorem Text.finish_mem {tokens : List Token} {mark : Token} (member : mark ∈ tokens)
    (ends : mark.kind = .endOfSource) :
    ∃ token ∈ Token.withoutComments tokens, token.span = (Text.of tokens).finish := by
  have present : mark ∈ Token.withoutComments tokens := by
    simp [Token.withoutComments, member, ends, Token.Kind.isComment]
  cases found : (Token.withoutComments tokens).find? (·.kind.isEnd) with
  | some first =>
      refine ⟨first, List.mem_of_find?_eq_some found, ?_⟩
      simp only [Text.of, found]
  | none =>
      have absent := List.find?_eq_none.mp found mark present
      simp [ends, Token.Kind.isEnd] at absent

end Grammar

/-- What is wrong with a text is said of its tokens and lexical errors. -/
theorem textErrors_span {source : String} {diagnostic : Diagnostic}
    (member : diagnostic ∈ textErrors source) : (Scan.of source).Shows diagnostic.span := by
  obtain lexical | syntactic := List.mem_append.mp member
  · obtain ⟨error, among, rfl⟩ := List.mem_map.mp lexical
    exact .inr ⟨error, among, rfl⟩
  · obtain ⟨error, among, rfl⟩ := List.mem_map.mp syntactic
    unfold Program.syntaxErrors at among
    split at among
    · cases among
    · next errors read =>
        obtain ends | ⟨token, inText, stands⟩ := Program.syntaxError_span read among
        · obtain ⟨mark, present, isMark⟩ := (Scans.ofString source).exists_mark
          obtain ⟨token, meaningful, there⟩ := Text.finish_mem present isMark
          exact .inl ⟨token, meaningful, there.trans ends.symm⟩
        · exact .inl ⟨token, Text.tokens_subset _ inText, stands.symm⟩

namespace Session

/-- A first program talks of its own places only. -/
theorem execute_span (callLimit : Nat) (clock : Clock) (budget : Nat) {tokens : List Token}
    {program : Program} (derives : Derives (.repeated .declaration) tokens program.statements)
    {diagnostic : Diagnostic}
    (member : diagnostic ∈ ((new callLimit .working clock).execute budget program).1.diagnostics) :
    diagnostic.span ∈ tokens.map Token.span := by
  have clean : (new callLimit .working clock).resolver.errors = [] := rfl
  by_cases accepted : ((new callLimit .working clock).resolver.resolve program).errors = []
  · rw [execute_of_accepted budget accepted] at member
    have stays := Program.mk.inj (Resolver.bound_moved clean derives.moved_keptAmong)
    cases ended : (World.interpret budget
        ((new callLimit .working clock).resolver.resolve program).program.statements
        (new callLimit .working clock).world.clearOutput).1 with
    | failed fault =>
        rw [ended] at member
        obtain rfl := List.mem_singleton.mp member
        exact Span.keptAmong_eq_self_iff.mp (World.fault_span stays (World.moved_initial _ _ _)
          (World.follows_initial _ _ _ _) rfl ended)
    | _ =>
        rw [ended] at member
        cases member
  · rw [execute_of_rejected budget accepted] at member
    obtain ⟨error, among, rfl⟩ := List.mem_map.mp member
    exact Resolver.error_span clean derives among

/-- Whatever is reported of the first source of a session stands where one of its tokens
stands, or where a lexical error does. -/
theorem diagnostic_span (callLimit : Nat) (clock : Clock) (budget : Nat) (source : String)
    {diagnostic : Diagnostic}
    (member : diagnostic ∈ ((new callLimit .working clock).run budget source).1.diagnostics) :
    (Scan.of source).Shows diagnostic.span := by
  cases read : (ParsedSource.of source).program with
  | some program =>
      obtain ⟨_, parsed⟩ := ParsedSource.program_of_eq_some_iff.mp read
      rw [run_of_program budget read] at member
      have among := execute_span callLimit clock budget (Program.derives_of_ofTokens parsed) member
      obtain ⟨token, inText, stands⟩ := List.mem_map.mp among
      exact .inl ⟨token, Text.tokens_subset _ inText, stands⟩
  | none =>
      simp only [run, read, ParsedSource.diagnostics_of] at member
      exact textErrors_span member

end Session

end Lox
