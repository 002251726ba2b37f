import Lox.Proofs.Grammar.Contained
import Lox.Proofs.Grammar.Rounds
import Lox.Proofs.Reports

/-!
Contract: where reading resumes behind a fatal syntax error.

A declaration that fails does so at the next token, and reading resumes behind the first semicolon
from there on, that token included, or at the first word that begins a statement behind that token,
whichever comes first. The offending token itself is always skipped, also where it is such a word.
No other word of that kind is.

Main statement: `Program.syntaxErrors_resume`.

Owns: the places where reading may go on. Does not own: what is found there.
-/

set_option autoImplicit false

namespace Lox

namespace Grammar

/-! ## Places where reading may go on -/

/-- Reading may go on at this position: behind a semicolon, or, from the position `least` on, at a
word that begins a statement. -/
def GoesOnAt (least : Nat) (tokens : List Token) (position : Nat) : Prop :=
  (0 < position ∧ ∃ token, tokens[position - 1]? = some token ∧ token.kind = .symbol .semicolon) ∨
    (least ≤ position ∧ ∃ token, tokens[position]? = some token ∧
      token.kind.startsStatement = true)

/-- These are the tokens from the first position where reading may go on, or none if there is no
such position. -/
def ResumesAt (least : Nat) (tokens next : List Token) : Prop :=
  (∃ position, GoesOnAt least tokens position ∧
      (∀ earlier < position, ¬ GoesOnAt least tokens earlier) ∧ next = tokens.drop position) ∨
    ((∀ position, ¬ GoesOnAt least tokens position) ∧ next = [])

theorem not_goesOnAt_zero (tokens : List Token) : ¬ GoesOnAt 1 tokens 0 := by
  simp [GoesOnAt]

theorem goesOnAt_one_iff (first : Token) (rest : List Token) :
    GoesOnAt 1 (first :: rest) 1 ↔ first.kind = .symbol .semicolon ∨
      ∃ token, rest.head? = some token ∧ token.kind.startsStatement = true := by
  simp [GoesOnAt, List.head?_eq_getElem?]

/-- From the third position on, the first token plays no part. -/
theorem goesOnAt_cons_iff (first : Token) (rest : List Token) (position : Nat) :
    GoesOnAt 1 (first :: rest) (position + 2) ↔ GoesOnAt 1 rest (position + 1) := by
  simp [GoesOnAt]

/-- What is resumed behind the first token is resumed behind a token in front of it, unless
reading may go on between the two. -/
theorem ResumesAt.cons {first : Token} {rest next : List Token} (resumes : ResumesAt 1 rest next)
    (goesOn : ¬ GoesOnAt 1 (first :: rest) 1) : ResumesAt 1 (first :: rest) next := by
  obtain ⟨position, there, minimal, rfl⟩ | ⟨nowhere, rfl⟩ := resumes
  · obtain ⟨position, rfl⟩ : ∃ before, position = before + 1 := by
      refine Nat.exists_eq_add_one.mpr (Nat.pos_of_ne_zero ?_)
      rintro rfl
      exact not_goesOnAt_zero rest there
    refine .inl ⟨position + 2, (goesOnAt_cons_iff ..).mpr there, fun earlier before => ?_, rfl⟩
    match earlier with
    | 0 => exact not_goesOnAt_zero _
    | 1 => exact goesOn
    | earlier + 2 =>
        rw [goesOnAt_cons_iff]
        exact minimal _ (by omega)
  · refine .inr ⟨fun position => ?_, rfl⟩
    match position with
    | 0 => exact not_goesOnAt_zero _
    | 1 => exact goesOn
    | position + 2 =>
        rw [goesOnAt_cons_iff]
        exact nowhere _

/-- Reading goes on behind the first of the tokens, where it first may. -/
theorem resumesAt_resume (tokens : List Token) : ResumesAt 1 tokens (resume tokens) := by
  have resumesAt_resumeBehind (first : Token) (rest : List Token) :
      ResumesAt 1 (first :: rest) (resumeBehind first rest) := by
    induction rest generalizing first with
    | nil =>
        by_cases isSemicolon : first.kind = .symbol .semicolon
        · refine .inl ⟨1, (goesOnAt_one_iff ..).mpr (.inl isSemicolon),
            fun earlier before => ?_, rfl⟩
          obtain rfl := Nat.lt_one_iff.mp before
          exact not_goesOnAt_zero _
        · refine .inr ⟨fun position => ?_, rfl⟩
          match position with
          | 0 => exact not_goesOnAt_zero _
          | 1 => simp [goesOnAt_one_iff, isSemicolon]
          | position + 2 => simp [GoesOnAt]
    | cons token others inductionHypothesis =>
        have here : (first.kind.isSymbol .semicolon || token.kind.startsStatement) = true ↔
            GoesOnAt 1 (first :: token :: others) 1 := by
          simp [goesOnAt_one_iff]
        simp only [resumeBehind]
        split
        · next goesOn =>
            refine .inl ⟨1, here.mp goesOn, fun earlier before => ?_, rfl⟩
            obtain rfl := Nat.lt_one_iff.mp before
            exact not_goesOnAt_zero _
        · next stays => exact (inductionHypothesis token).cons (mt here.mpr stays)
  cases tokens with
  | nil => exact .inr ⟨fun position => by simp [GoesOnAt], rfl⟩
  | cons first rest => exact resumesAt_resumeBehind first rest

/-- Only the first of the tokens that are skipped may begin a statement. -/
theorem ResumesAt.skipped {tokens next : List Token} (resumes : ResumesAt 1 tokens next) :
    ∃ skipped, tokens = skipped ++ next ∧
      ∀ token ∈ skipped.tail, token.kind.startsStatement = false := by
  have within (limit : Nat) (nowhere : ∀ earlier < limit, ¬ GoesOnAt 1 tokens earlier) :
      ∀ token ∈ (tokens.take limit).tail, token.kind.startsStatement = false := by
    intro token member
    obtain ⟨index, below, same⟩ := List.mem_iff_getElem.mp member
    rw [List.getElem_tail] at same
    rw [List.length_tail, List.length_take] at below
    rw [Bool.eq_false_iff]
    intro starts
    refine nowhere (index + 1) (by omega) (.inr ⟨Nat.le_add_left 1 index, token, ?_, starts⟩)
    rw [← same, List.getElem_take, List.getElem?_eq_getElem]
  obtain ⟨position, _, minimal, rfl⟩ | ⟨nowhere, rfl⟩ := resumes
  · exact ⟨tokens.take position, (List.take_append_drop position tokens).symm,
      within position minimal⟩
  · have all := within tokens.length fun earlier _ => nowhere earlier
    rw [List.take_length] at all
    exact ⟨tokens, (List.append_nil tokens).symm, all⟩

/-! ## Rounds that fail -/

/-- A declaration goes onward, and fails at the next token. -/
theorem reading_onward (tokens : List Token) :
    Parser.OnwardAt tokens (declaration (boundFor tokens)) :=
  ((contained_constructs _).2.2 tokens).toOnwardAt

/-- What a round fails with is a fatal complaint about the next token. -/
theorem fatal_of_reading {tokens : List Token} {complaint : Complaint}
    (fails : (reading tokens).outcome = .error complaint) :
    complaint ∈ (reading tokens).complaints ∧ complaint.cause.stops = true ∧
      complaint.token = (reading tokens).rest.head? :=
  ⟨by simp [Reply.complaints, fails], (reading_onward tokens).stopped complaint fails⟩

/-- A fatal complaint of a round is what the round fails with, and about the next token. -/
theorem reading_fails {tokens : List Token} {complaint : Complaint}
    (complains : complaint ∈ (reading tokens).complaints) (fatal : complaint.cause.stops = true) :
    (reading tokens).outcome = .error complaint ∧
      complaint.token = (reading tokens).rest.head? := by
  obtain ⟨_, stopped, noted, _⟩ := reading_onward tokens
  obtain member | member := List.mem_append.mp complains
  · exact absurd fatal (by rw [noted complaint member]; decide)
  · split at member
    · cases member
    · next outcome =>
        obtain rfl := List.mem_singleton.mp member
        exact ⟨outcome, (stopped complaint outcome).2⟩

/-- The next round begins where reading goes on, unless the tokens end there. -/
theorem next_mem_rounds {tokens start : List Token} (member : start ∈ rounds tokens) :
    (reading start).next = [] ∨ (reading start).next ∈ rounds tokens := by
  induction tokens using rounds.induct with
  | case1 => simp at member
  | case2 token rest inductionHypothesis =>
      rw [rounds_of_ne_nil (List.cons_ne_nil token rest)] at member ⊢
      obtain rfl | later := List.mem_cons.mp member
      · by_cases atEnd : (reading (token :: rest)).next = []
        · exact .inl atEnd
        · rw [rounds_of_ne_nil atEnd]
          exact .inr (List.mem_cons_of_mem _ List.mem_cons_self)
      · exact (inductionHypothesis later).imp_right (List.mem_cons_of_mem _)

end Grammar

open Grammar

/-- The syntax errors are what the rounds complain of. -/
theorem Program.syntaxErrors_eq_findings (tokens : List Token) :
    Program.syntaxErrors tokens =
      (findings (Text.of tokens).tokens).complaints.map
        (Complaint.toError (Text.of tokens).finish) := by
  rw [syntaxErrors, ofTokens_eq]
  split
  · next read =>
      split at read
      · next none => rw [none]; rfl
      · cases read
  · next errors read =>
      split at read
      · cases read
      · exact (Except.error.inj read).symm

/-- The syntax errors are what the rounds complain of, round by round. A round that has a fatal one
fails there, at the next token, and the next round begins where reading goes on: behind the first
semicolon from that token on, or at the first word behind that token that begins a statement. So of
what is skipped only the offending token itself may begin a statement. -/
theorem Program.syntaxErrors_resume (tokens : List Token) :
    (Program.syntaxErrors tokens = (rounds (Text.of tokens).tokens).flatMap fun start =>
      (reading start).complaints.map (Complaint.toError (Text.of tokens).finish)) ∧
    ∀ start ∈ rounds (Text.of tokens).tokens, ∀ complaint ∈ (reading start).complaints,
      complaint.cause.stops = true →
        (reading start).outcome = .error complaint ∧
        (reading start).rest <:+ (Text.of tokens).tokens ∧
        complaint.token = (reading start).rest.head? ∧
        ResumesAt 1 (reading start).rest (reading start).next ∧
        ((reading start).next = [] ∨ (reading start).next ∈ rounds (Text.of tokens).tokens) ∧
        ∃ skipped, (reading start).rest = skipped ++ (reading start).next ∧
          ∀ token ∈ skipped.tail, token.kind.startsStatement = false := by
  refine ⟨?_, fun start member complaint complains fatal => ?_⟩
  · rw [syntaxErrors_eq_findings, findings, List.map_flatMap]
  · obtain ⟨fails, about⟩ := reading_fails complains fatal
    have later := (reading_recorded start).suffix.trans (rounds_suffix _ start member).2
    have resumes : ResumesAt 1 (reading start).rest (reading start).next := by
      rw [Reply.next, fails]
      exact resumesAt_resume _
    exact ⟨fails, later, about, resumes, next_mem_rounds member, resumes.skipped⟩

/-- The tokens of `var print ;` fail at the word `print`, which is skipped although it begins a
statement. That statement has an error of its own, which is not reported. -/
theorem Program.offendingWord_skipped :
    let word (kind : Token.Kind) (lexeme : String) (column : Nat) : Token :=
      ⟨kind, lexeme, ⟨1, column, lexeme.length⟩⟩
    let print := [word (.keyword .print) "print" 5, word (.symbol .semicolon) ";" 11]
    let tokens := word (.keyword .var) "var" 1 :: print
    let mark := word .endOfSource "" 12
    (∃ complaint ∈ (reading tokens).complaints, complaint.cause.stops = true) ∧
      ¬ ResumesAt 0 (reading tokens).rest (reading tokens).next ∧
      ∃ error ∈ Program.syntaxErrors (print ++ [mark]),
        error ∉ Program.syntaxErrors (tokens ++ [mark]) := by
  intro word print tokens mark
  have answer : reading tokens = ⟨.error ⟨.name "variable", print.head?⟩, print, []⟩ := rfl
  refine ⟨?_, ?_, ?_⟩
  · rw [answer]
    exact ⟨_, List.mem_singleton_self _, rfl⟩
  · rw [answer]
    rintro (⟨position, _, minimal, same⟩ | ⟨nowhere, _⟩)
    · have atWord : GoesOnAt 0 print 0 := .inr ⟨Nat.le_refl 0, _, rfl, rfl⟩
      match position with
      | 0 => exact absurd (congrArg List.length same) (by decide)
      | position + 1 => exact minimal 0 (Nat.succ_pos position) atWord
    · exact nowhere 0 (.inr ⟨Nat.le_refl 0, _, rfl, rfl⟩)
  · exact ⟨⟨.expression, ⟨1, 11, 1⟩, .atLexeme ";"⟩, by decide +kernel, by decide +kernel⟩

end Lox
