import Lox.Prompt.Completeness
import Lox.Proofs.Grammar.Balance
import Lox.Proofs.Lexeme.Covered
import Lox.Proofs.Places.Grammar
import Lox.Proofs.Reports

/-!
Contract: entries at the prompt, and the lexemes that they are made of.

Whether an entry is complete is told from its characters alone. Yet what surrounds a
character there is what the scanner makes of it: a lexeme that begins in code ends in code,
unless it is a string or a block comment that does not end at all, and it opens as many
brackets as its token. So the prompt counts the brackets of the tokens, and what has a
reading by the grammar, which closes what it opens, is complete.

Main statements: `Prompt.isComplete_iff_scanned`, `Prompt.isComplete_of_accepted`.

Owns: how far brackets are open behind a text, lexeme by lexeme. Does not own: lexemes.
-/

set_option autoImplicit false

namespace Lox

namespace Prompt

-- The equations are derived once here, not in each of the proofs below.
attribute [local simp] surroundingsAfter

/-- How far brackets are open behind a text, none if a string or a block comment is. -/
def openBehind (surroundings : Surroundings) (opened : Int) (text : List Char) : Option Int :=
  match surroundingsAfter surroundings opened text with
  | (.code, opened) | (.lineComment, opened) => some opened
  | _ => none

/-- A complete entry leaves no bracket open. -/
theorem isComplete_iff (entry : String) :
    isComplete entry = true ↔ ∃ opened, openBehind .code 0 entry.toList = some opened ∧ opened ≤ 0 := by
  unfold isComplete openBehind
  split <;> simp_all

/-! ## Code -/

/-- The characters that matter where the surroundings are code. -/
def markers : List Char := ['/', '"', '(', ')', '\x7b', '\x7d']

theorem openBehind_inert {character : Char} (inert : character ∉ markers) (opened : Int)
    (rest : List Char) :
    openBehind .code opened (character :: rest) = openBehind .code opened rest := by
  simp only [markers, List.mem_cons, List.not_mem_nil, or_false, not_or] at inert
  obtain ⟨notSlash, notQuote, notOpening, notClosing, notLeft, notRight⟩ := inert
  simp [openBehind, bracketBalance, *]

theorem openBehind_append_inert {stretch : List Char} (inert : ∀ character ∈ stretch,
    character ∉ markers) (opened : Int) (rest : List Char) :
    openBehind .code opened (stretch ++ rest) = openBehind .code opened rest := by
  induction stretch with
  | nil => rfl
  | cons character others inductionHypothesis =>
      rw [List.cons_append, openBehind_inert (inert character (List.mem_cons_self ..)),
        inductionHypothesis fun other member => inert other (List.mem_cons_of_mem _ member)]

/-- Blanks do not matter. -/
theorem openBehind_skipSpace (position : Position) (opened : Int) (text : List Char) :
    openBehind .code opened (Stream.skipSpace position text).2 = openBehind .code opened text := by
  induction text generalizing position with
  | nil => rfl
  | cons character rest inductionHypothesis =>
      rw [Stream.skipSpace]
      split
      · next space =>
          rw [inductionHypothesis, openBehind_inert (Lexeme.notMem_of_test rfl space)]
      · rfl

/-! ## Comments and strings -/

theorem openBehind_lineComment (opened : Int) (text : List Char) :
    openBehind .lineComment opened text =
      openBehind .code opened (text.drop (text.takeWhile (· ≠ '\n')).length) := by
  induction text with
  | nil => rfl
  | cons character rest inductionHypothesis =>
      by_cases feed : character = '\n'
      · subst feed
        exact (openBehind_inert (by decide) opened rest).symm
      · have goesOn : openBehind .lineComment opened (character :: rest) =
            openBehind .lineComment opened rest := by
          simp [openBehind, feed]
        rw [goesOn, inductionHypothesis]
        simp [feed]

theorem openBehind_string (opened : Int) (text : List Char) :
    openBehind .string opened text =
      if (text.takeWhile (· ≠ '"')).length < text.length then
        openBehind .code opened (text.drop ((text.takeWhile (· ≠ '"')).length + 1))
      else none := by
  induction text with
  | nil => rfl
  | cons character rest inductionHypothesis =>
      by_cases quote : character = '"'
      · simp [openBehind, quote]
      · have goesOn : openBehind .string opened (character :: rest) =
            openBehind .string opened rest := by
          simp [openBehind, quote]
        rw [goesOn, inductionHypothesis]
        simp [quote]

/-- Inside a block comment a closing mark leads one level out. -/
theorem openBehind_closingMark (inner : Nat) (opened : Int) (rest : List Char) :
    openBehind (.blockComment inner) opened ('*' :: '/' :: rest) =
      match inner with
      | 0 => openBehind .code opened rest
      | outer + 1 => openBehind (.blockComment outer) opened rest := by
  cases inner <;> rfl

theorem openBehind_openingMark (inner : Nat) (opened : Int) (rest : List Char) :
    openBehind (.blockComment inner) opened ('/' :: '*' :: rest) =
      openBehind (.blockComment (inner + 1)) opened rest := by
  cases inner <;> rfl

theorem openBehind_comment_cons {inner : Nat} {character : Char} {rest : List Char}
    (notClosing : ∀ others, character = '*' → rest = '/' :: others → False)
    (notOpening : ∀ others, character = '/' → rest = '*' :: others → False) (opened : Int) :
    openBehind (.blockComment inner) opened (character :: rest) =
      openBehind (.blockComment inner) opened rest := by
  unfold openBehind
  rw [surroundingsAfter]
  · exact fun others _ => notClosing others
  · exact fun _ others _ => notClosing others
  · exact notOpening

/-- A text is code from a place on, if there is one; otherwise it does not end in code. The
place is counted from one that is so many characters before the text. -/
def CodeFrom (surroundings : Surroundings) (opened : Int) (taken : Nat) (text : List Char) :
    Option Nat → Prop
  | some finish => ∃ count, finish = taken + count ∧
      openBehind surroundings opened text = openBehind .code opened (text.drop count)
  | none => openBehind surroundings opened text = none

theorem CodeFrom.prepend {before behind : Surroundings} {opened : Int} {taken : Nat}
    (stretch : List Char) {text : List Char} {place : Option Nat}
    (from? : CodeFrom behind opened (taken + stretch.length) text place)
    (leads : openBehind before opened (stretch ++ text) = openBehind behind opened text) :
    CodeFrom before opened taken (stretch ++ text) place := by
  cases place with
  | none => exact leads.trans from?
  | some finish =>
      obtain ⟨count, rfl, code⟩ := from?
      refine ⟨stretch.length + count, Nat.add_assoc .., leads.trans (code.trans ?_)⟩
      rw [List.drop_append, List.drop_of_length_le (Nat.le_add_right ..), List.nil_append,
        Nat.add_sub_cancel_left]

/-- A block comment is followed by code, if it ends. -/
theorem codeFrom_blockCommentEnd {inner depth : Nat} (deep : depth = inner + 1) (opened : Int)
    (taken : Nat) (text : List Char) :
    CodeFrom (.blockComment inner) opened taken text (Lexeme.blockCommentEnd depth taken text) := by
  fun_induction Lexeme.blockCommentEnd depth taken text generalizing inner with
  | case1 depth taken rest shallow =>
      obtain rfl : inner = 0 := by omega
      exact ⟨2, rfl, openBehind_closingMark 0 opened rest⟩
  | case2 depth taken rest deeper inductionHypothesis =>
      obtain ⟨outer, rfl⟩ := Nat.exists_eq_succ_of_ne_zero (n := inner) (by omega)
      exact CodeFrom.prepend ['*', '/'] (inductionHypothesis (by omega))
        (openBehind_closingMark (outer + 1) opened rest)
  | case3 depth taken rest inductionHypothesis =>
      exact CodeFrom.prepend ['/', '*'] (inductionHypothesis (by omega))
        (openBehind_openingMark inner opened rest)
  | case4 depth taken character rest notClosing notOpening inductionHypothesis =>
      exact CodeFrom.prepend [character] (inductionHypothesis deep)
        (openBehind_comment_cons notClosing notOpening opened)
  | case5 depth taken => cases inner <;> rfl

/-! ## Lexemes -/

/-- The text begins with this lexeme, and code goes on behind it with the brackets that its
token opens, unless it does not end. -/
def GoesOn (text : List Char) (lexeme : Lexeme) : Prop :=
  ∀ opened, openBehind .code opened text =
    match lexeme.outcome with
    | .ok kind => openBehind .code (opened + kind.balance) (text.drop (lexeme.extent + 1))
    | .error cause =>
        bif cause.isUnterminated then none
        else openBehind .code opened (text.drop (lexeme.extent + 1))

theorem goesOn_plain {first : Char} {rest : List Char} {kind : Token.Kind} {extent : Nat}
    (inertFirst : first ∉ markers) (inert : ∀ character ∈ rest.take extent, character ∉ markers)
    (opensNothing : kind.balance = 0) : GoesOn (first :: rest) (Lexeme.plain kind extent) := by
  intro opened
  have behind := openBehind_append_inert inert opened (rest.drop extent)
  rw [List.take_append_drop] at behind
  simp only [Lexeme.plain, opensNothing, List.drop_succ_cons]
  rw [openBehind_inert inertFirst, behind, Int.add_zero]

theorem goesOn_withEqual {first : Char} (inertFirst : first ∉ markers) {alone joined : Symbol}
    (aloneOpens : (Token.Kind.symbol alone).balance = 0)
    (joinedOpens : (Token.Kind.symbol joined).balance = 0) (rest : List Char) :
    GoesOn (first :: rest) (Lexeme.withEqual alone joined rest) := by
  unfold Lexeme.withEqual
  split
  · exact goesOn_plain inertFirst (by simp [markers]) joinedOpens
  · exact goesOn_plain inertFirst (by simp) aloneOpens

theorem goesOn_lineComment (body : List Char) :
    GoesOn ('/' :: '/' :: body) (Lexeme.lineComment body) := by
  intro opened
  have enters : openBehind .code opened ('/' :: '/' :: body) = openBehind .lineComment opened body :=
    rfl
  rw [enters, openBehind_lineComment]
  simp [Lexeme.lineComment, Lexeme.plain, Token.Kind.balance]

theorem goesOn_blockComment (body : List Char) :
    GoesOn ('/' :: '*' :: body) (Lexeme.blockComment body) := by
  intro opened
  have enters : openBehind .code opened ('/' :: '*' :: body) =
      openBehind (.blockComment 0) opened body := rfl
  have behind := codeFrom_blockCommentEnd (Nat.zero_add 1).symm opened 0 body
  rw [enters]
  unfold Lexeme.blockComment
  cases ends : Lexeme.blockCommentEnd 1 0 body with
  | some finish =>
      rw [ends] at behind
      obtain ⟨count, rfl, code⟩ := behind
      simp [code, Token.Kind.balance]
  | none =>
      rw [ends] at behind
      have endless : openBehind (.blockComment 0) opened body = none := behind
      simp [endless, ScanError.Cause.isUnterminated]

theorem goesOn_quotation (body : List Char) :
    GoesOn ('"' :: body) (Lexeme.quotation body) := by
  intro opened
  have enters : openBehind .code opened ('"' :: body) = openBehind .string opened body := by
    simp [openBehind, surroundingsAfter, bracketBalance]
  rw [enters, openBehind_string]
  unfold Lexeme.quotation
  simp only
  split <;> simp [Token.Kind.balance, ScanError.Cause.isUnterminated]

theorem goesOn_slash {rest : List Char} (notLine : ∀ body, rest = '/' :: body → False)
    (notBlock : ∀ body, rest = '*' :: body → False) :
    GoesOn ('/' :: rest) (Lexeme.single .slash) := by
  intro opened
  have stays : openBehind .code opened ('/' :: rest) = openBehind .code opened rest := by
    unfold openBehind
    rw [surroundingsAfter]
    · simp [bracketBalance]
    · exact fun body _ => notLine body
    · exact fun body _ => notBlock body
  simp [stays, Lexeme.single, Lexeme.plain, Token.Kind.balance]

theorem goesOn_numeral {first : Char} (digit : first.isDigit = true) (rest : List Char) :
    GoesOn (first :: rest) (Lexeme.numeral first rest) := by
  refine goesOn_plain (Lexeme.notMem_of_test rfl digit) (fun character member => ?_) rfl
  obtain digit | rfl := Lexeme.forall_numeral first rest character member
  · exact Lexeme.notMem_of_test rfl digit
  · decide

theorem goesOn_word {first : Char} (letter : Lexeme.isLetter first = true) (rest : List Char) :
    GoesOn (first :: rest) (Lexeme.word first rest) := by
  have inert := Lexeme.forall_word first rest
  unfold Lexeme.word at inert ⊢
  simp only at inert ⊢
  split
  · next reserved found =>
      rw [found] at inert
      exact goesOn_plain (Lexeme.notMem_of_test rfl letter)
        (fun character member => Lexeme.notMem_of_test rfl (inert character member)) rfl
  · next found =>
      rw [found] at inert
      exact goesOn_plain (Lexeme.notMem_of_test rfl letter)
        (fun character member => Lexeme.notMem_of_test rfl (inert character member)) rfl

/-- Every lexeme that begins in code ends in code, or not at all. -/
theorem goesOn_at (first : Char) (rest : List Char) :
    GoesOn (first :: rest) (Lexeme.at first rest) := by
  have single {sign : Symbol} {character : Char} (notMarker : character ≠ '/' ∧ character ≠ '"')
      (same : bracketBalance character = (Token.Kind.symbol sign).balance) :
      GoesOn (character :: rest) (Lexeme.single sign) := by
    intro opened
    simp [openBehind, surroundingsAfter, Lexeme.single, Lexeme.plain, notMarker, same]
  unfold Lexeme.at
  split
  all_goals first
    | exact single (by decide) rfl
    | exact goesOn_quotation rest
    | exact goesOn_withEqual (by decide) rfl rfl rest
    | skip
  · split
    · exact goesOn_lineComment _
    · exact goesOn_blockComment _
    · next notLine notBlock => exact goesOn_slash notLine notBlock
  · split
    · next digit => exact goesOn_numeral digit rest
    · split
      · next letter => exact goesOn_word letter rest
      · intro opened
        have inert : first ∉ markers := by simp_all [markers]
        simpa [ScanError.Cause.isUnterminated] using openBehind_inert inert opened rest

/-! ## Sources -/

/-- Behind a text as many brackets are open as its tokens have opened, unless it ends in a
string or a block comment. -/
theorem openBehind_of_scans {position : Position} {text : List Char} {items : List Item}
    (scans : Scans position text items) (opened : Int) :
    openBehind .code opened text =
      bif (Scan.ofItems items).errors.any (·.cause.isUnterminated) then none
      else some (opened + balanceOf (Scan.ofItems items).tokens) := by
  induction scans generalizing opened with
  | @finish position reached text skips =>
      have code := openBehind_skipSpace position opened text
      rw [skips] at code
      rw [← code]
      simp [Scan.ofItems, Token.Kind.balance, openBehind, surroundingsAfter, Except.toOption]
  | @lexeme position reached text rest first items skips others inductionHypothesis =>
      have code := openBehind_skipSpace position opened text
      rw [skips] at code
      rw [← code, goesOn_at first rest opened, List.drop_succ_cons]
      unfold Stream.itemOf
      cases outcome : (Lexeme.at first rest).outcome with
      | ok kind =>
          simp only [inductionHypothesis, Scan.ofItems_cons_token, balanceOf_cons, Int.add_assoc]
      | error cause =>
          simp only [inductionHypothesis, Scan.ofItems_cons_error, List.any_cons]
          cases cause.isUnterminated <;> rfl

/-- A source is complete at the prompt exactly if no string or block comment in it lacks its
end, and its tokens open no more brackets than they close. -/
theorem isComplete_iff_balance (source : String) :
    isComplete source = true ↔
      (Scan.of source).errors.any (·.cause.isUnterminated) = false ∧
        balanceOf (Scan.of source).tokens ≤ 0 := by
  rw [isComplete_iff, openBehind_of_scans (Scans.ofString source), ← Scan.of]
  cases endless : (Scan.of source).errors.any (·.cause.isUnterminated) <;> simp

/-- The prompt and the scanner agree: a source is complete exactly if scanning it yields no string
and no block comment that lacks its end, and no more opening brackets than closing ones. -/
theorem isComplete_iff_scanned (source : String) :
    isComplete source = true ↔
      (∀ error ∈ (Scan.of source).errors, error.cause ≠ .unterminatedString ∧
        error.cause ≠ .unterminatedBlockComment) ∧
      (Scan.of source).tokens.countP (·.kind.opensBracket) ≤
        (Scan.of source).tokens.countP (·.kind.closesBracket) := by
  have ended (error : ScanError) : error.cause.isUnterminated = false ↔
      error.cause ≠ .unterminatedString ∧ error.cause ≠ .unterminatedBlockComment := by
    cases error.cause <;> simp [ScanError.Cause.isUnterminated]
  have balanced : balanceOf (Scan.of source).tokens ≤ 0 ↔
      (Scan.of source).tokens.countP (·.kind.opensBracket) ≤
        (Scan.of source).tokens.countP (·.kind.closesBracket) := by
    rw [balanceOf_eq_countP]
    omega
  rw [isComplete_iff_balance, balanced, List.any_eq_false]
  simp only [Bool.not_eq_true, ended]

/-- A quote inside a comment is none, nor is a comment mark inside a string, and an odd character
is passed over. -/
example : isComplete "/* \" /*/ */ */ ( \"/*\" @ \x7b \x7d )" = true ∧
    isComplete "/*/ ( " = false ∧ isComplete "( \" ) " = false := by decide

/-- What the grammar has is complete. -/
theorem isComplete_of_derives {source : String} (clean : (Scan.of source).errors = [])
    {phrase : Grammar.Phrase} {tree : phrase.Tree}
    (derives : Grammar.Derives phrase (Grammar.Text.of (Scan.of source).tokens).tokens tree) :
    isComplete source = true := by
  obtain ⟨front, mark, tokens, ends, unmarked, _⟩ := Scan.of_joined clean
  have balanced := derives.balance_eq_zero
  rw [tokens, Grammar.Text.tokens_of_unmarked unmarked ends, balanceOf_withoutComments] at balanced
  refine (isComplete_iff_balance source).mpr ⟨by simp [clean], ?_⟩
  simp [tokens, balanced, ends, Token.Kind.balance]

/-- No source that is a program, or a bare expression, is kept waiting at the prompt. -/
theorem isComplete_of_accepted (source : String) :
    (∀ program, (ParsedSource.of source).program = some program → isComplete source = true) ∧
      ∀ expr, bareExpression? source = some expr → isComplete source = true := by
  refine ⟨fun program accepted => ?_, fun expr accepted => ?_⟩
  · obtain ⟨clean, parsed⟩ := ParsedSource.program_of_eq_some_iff.mp accepted
    exact isComplete_of_derives clean (Program.derives_of_ofTokens parsed)
  · obtain ⟨clean, parsed⟩ := bareExpression?_eq_some_iff.mp accepted
    exact isComplete_of_derives clean (Expr.derives_of_ofTokens parsed)

/-- Brackets in strings and comments do not keep a program or an expression waiting. -/
theorem isComplete_of_accepted_quoted :
    isComplete "fun f() \x7b print \"(\"; \x7d // \x7b" = true ∧
      isComplete "f(\"\x7b\") /* ( /* */ ( */" = true := by
  have program : (ParsedSource.of "fun f() \x7b print \"(\"; \x7d // \x7b").program.isSome = true := by
    decide +kernel
  have bare : (bareExpression? "f(\"\x7b\") /* ( /* */ ( */").isSome = true := by
    decide +kernel
  obtain ⟨_, accepted⟩ := Option.isSome_iff_exists.mp program
  obtain ⟨_, acceptedBare⟩ := Option.isSome_iff_exists.mp bare
  exact ⟨(isComplete_of_accepted _).1 _ accepted, (isComplete_of_accepted _).2 _ acceptedBare⟩

end Prompt

end Lox
