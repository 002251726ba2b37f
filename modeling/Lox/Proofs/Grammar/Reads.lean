import Lox.Grammar.Statement

/-!
Contract: what it means that a parser reads a stretch of tokens without objection.

`Parser.Reads` says that a parser finds a value, leaves the tokens `rest` and notes
no complaint. Each combinator has one equivalence that says when it reads, so that
a rule of the grammar is opened by rewriting, in whichever direction is needed.

Owns: `Reads` and its laws for the combinators. Does not own: the rules of the
language.
-/

namespace Lox.Parser

variable {α β : Type}

/-- The parser finds `value` at the front of `tokens`, leaves `rest`, and has no
complaint. -/
def Reads (parser : Parser α) (tokens : List Token) (value : α) (rest : List Token) : Prop :=
  parser tokens = ⟨.ok value, rest, []⟩

/-- A parser reads in at most one way. -/
theorem Reads.unique {parser : Parser α} {tokens rest rest' : List Token} {value value' : α}
    (first : Reads parser tokens value rest) (second : Reads parser tokens value' rest') :
    value = value' ∧ rest = rest' := by
  unfold Reads at first second
  rw [first] at second
  simpa using second

/-! ## Sequencing -/

@[simp] theorem reads_pure {value found : α} {tokens rest : List Token} :
    Reads (pure value) tokens found rest ↔ value = found ∧ tokens = rest := by
  simp [Reads, pure, succeed]

@[simp] theorem reads_bind {first : Parser α} {next : α → Parser β} {tokens rest : List Token}
    {found : β} :
    Reads (first >>= next) tokens found rest ↔
      ∃ value middle, Reads first tokens value middle ∧ Reads (next value) middle found rest := by
  unfold Reads
  rcases answer : first tokens with ⟨complaint | value, middle, notes⟩
  · rw [bind_of_error answer]
    simp
  · rw [bind_of_ok answer]
    rcases reply : next value middle with ⟨outcome, last, others⟩
    constructor
    · intro reads
      simp only [Reply.mk.injEq, List.append_eq_nil_iff] at reads
      obtain ⟨rfl, rfl, rfl, rfl⟩ := reads
      exact ⟨value, middle, rfl, reply⟩
    · rintro ⟨other, between, same, reads⟩
      simp only [Reply.mk.injEq, Except.ok.injEq] at same
      obtain ⟨rfl, rfl, rfl⟩ := same
      rw [reply] at reads
      simpa using reads

@[simp] theorem reads_map {function : α → β} {parser : Parser α} {tokens rest : List Token}
    {found : β} :
    Reads (function <$> parser) tokens found rest ↔
      ∃ value, Reads parser tokens value rest ∧ function value = found := by
  change Reads (parser >>= fun value => pure (function value)) tokens found rest ↔ _
  simp only [reads_bind, reads_pure]
  constructor
  · rintro ⟨value, _, reads, same, rfl⟩
    exact ⟨value, reads, same⟩
  · rintro ⟨value, reads, same⟩
    exact ⟨value, rest, reads, same, rfl⟩

@[simp] theorem not_reads_fail {cause : SyntaxError.Cause} {tokens rest : List Token}
    {found : α} : ¬ Reads (fail cause) tokens found rest := by
  simp [Reads, fail]

@[simp] theorem not_reads_note {cause : SyntaxError.Cause} {token : Option Token}
    {tokens rest : List Token} {found : Unit} : ¬ Reads (note cause token) tokens found rest := by
  simp [Reads, note]

/-! ## Tests of the next token -/

@[simp] theorem reads_peek {tokens rest : List Token} {found : Option Token} :
    Reads peek tokens found rest ↔ tokens.head? = found ∧ tokens = rest := by
  simp [Reads, peek]

@[simp] theorem reads_atEnd {tokens rest : List Token} {found : Bool} :
    Reads atEnd tokens found rest ↔ tokens.isEmpty = found ∧ tokens = rest := by
  simp [Reads, atEnd]

@[simp] theorem reads_sees {test : Token.Kind → Bool} {tokens rest : List Token} {found : Bool} :
    Reads (sees test) tokens found rest ↔
      (tokens.head?.any fun token => test token.kind) = found ∧ tokens = rest := by
  simp [Reads, sees]

@[simp] theorem reads_nextSpan {tokens rest : List Token} {found : Span} :
    Reads nextSpan tokens found rest ↔
      (tokens.head?.map Token.span).getD .nowhere = found ∧ tokens = rest := by
  simp [Reads, nextSpan]

@[simp] theorem reads_skip {token : Token} {tokens rest : List Token} {found : Span} :
    Reads skip (token :: tokens) found rest ↔ token.span = found ∧ tokens = rest := by
  simp [Reads, skip]

/-! ## Optional and required tokens -/

/-- Whether the next token, if there is one, has no such kind. -/
def Avoids (test : Token.Kind → Bool) (tokens : List Token) : Prop :=
  ∀ token ∈ tokens.head?, test token.kind = false

@[simp] theorem avoids_nil (test : Token.Kind → Bool) : Avoids test [] := by
  simp [Avoids]

@[simp] theorem avoids_cons {test : Token.Kind → Bool} {token : Token} {tokens : List Token} :
    Avoids test (token :: tokens) ↔ test token.kind = false := by
  simp [Avoids]

theorem reads_optional {test : Token.Kind → Bool} {tokens rest : List Token}
    {found : Option Token} :
    Reads (Parser.optional test) tokens found rest ↔
      (∃ token, tokens = token :: rest ∧ test token.kind = true ∧ found = some token) ∨
        (Avoids test tokens ∧ tokens = rest ∧ found = none) := by
  unfold Reads Parser.optional
  cases tokens with
  | nil =>
      constructor
      · rintro ⟨⟩
        exact .inr ⟨avoids_nil test, rfl, rfl⟩
      · rintro (⟨token, impossible, _⟩ | ⟨_, rfl, rfl⟩)
        · cases impossible
        · rfl
  | cons token others =>
      by_cases fits : test token.kind = true
      · simp only [fits, ↓reduceIte]
        constructor
        · rintro ⟨⟩
          exact .inl ⟨token, rfl, fits, rfl⟩
        · rintro (⟨_, ⟨⟩, _, rfl⟩ | ⟨avoids, _⟩)
          · rfl
          · simp [fits] at avoids
      · simp only [fits, Bool.false_eq_true, ↓reduceIte]
        constructor
        · rintro ⟨⟩
          exact .inr ⟨by simpa using fits, rfl, rfl⟩
        · rintro (⟨_, ⟨⟩, fits', _⟩ | ⟨_, rfl, rfl⟩)
          · exact absurd fits' fits
          · rfl

theorem reads_optionalAs {meaning : Token.Kind → Option α} {tokens rest : List Token}
    {found : Option (α × Span)} :
    Reads (optionalAs meaning) tokens found rest ↔
      (∃ token value, tokens = token :: rest ∧ meaning token.kind = some value ∧
          found = some (value, token.span)) ∨
        ((∀ token ∈ tokens.head?, meaning token.kind = none) ∧ tokens = rest ∧ found = none) := by
  unfold Reads optionalAs
  cases tokens with
  | nil =>
      constructor
      · rintro ⟨⟩
        exact .inr ⟨by simp, rfl, rfl⟩
      · rintro (⟨_, _, impossible, _⟩ | ⟨_, rfl, rfl⟩)
        · cases impossible
        · rfl
  | cons token others =>
      cases meant : meaning token.kind with
      | none =>
          simp only [meant]
          constructor
          · rintro ⟨⟩
            exact .inr ⟨by simpa using meant, rfl, rfl⟩
          · rintro (⟨_, _, ⟨⟩, meant', _⟩ | ⟨_, rfl, rfl⟩)
            · rw [meant] at meant'
              cases meant'
            · rfl
      | some value =>
          simp only [meant]
          constructor
          · rintro ⟨⟩
            exact .inl ⟨token, value, rfl, meant, rfl⟩
          · rintro (⟨_, _, ⟨⟩, meant', rfl⟩ | ⟨none, _⟩)
            · rw [meant] at meant'
              cases meant'
              rfl
            · simp [meant] at none

theorem reads_require {test : Token.Kind → Bool} {cause : SyntaxError.Cause}
    {tokens rest : List Token} {found : Token} :
    Reads (require test cause) tokens found rest ↔
      tokens = found :: rest ∧ test found.kind = true := by
  unfold Reads require
  cases tokens with
  | nil => simp
  | cons token others =>
      by_cases fits : test token.kind = true
      · simp only [fits, ↓reduceIte, Reply.mk.injEq, Except.ok.injEq, and_true,
          List.cons.injEq]
        constructor
        · rintro ⟨rfl, rfl⟩
          exact ⟨⟨rfl, rfl⟩, fits⟩
        · rintro ⟨⟨rfl, rfl⟩, _⟩
          exact ⟨rfl, rfl⟩
      · simp only [fits, Bool.false_eq_true, ↓reduceIte, Reply.mk.injEq, reduceCtorEq, false_and,
          List.cons.injEq, false_iff]
        rintro ⟨⟨rfl, _⟩, fits'⟩
        exact fits fits'

@[simp] theorem isSymbol_iff {sign : Symbol} {kind : Token.Kind} :
    kind.isSymbol sign = true ↔ kind = .symbol sign := by
  cases kind <;> simp [Token.Kind.isSymbol]

@[simp] theorem isKeyword_iff {word : Keyword} {kind : Token.Kind} :
    kind.isKeyword word = true ↔ kind = .keyword word := by
  cases kind <;> simp [Token.Kind.isKeyword]

@[simp] theorem isIdentifier_iff {kind : Token.Kind} :
    kind.isIdentifier = true ↔ kind = .identifier := by
  cases kind <;> simp [Token.Kind.isIdentifier]

@[simp] theorem reads_symbol {sign : Symbol} {place : String} {tokens rest : List Token}
    {found : Token} :
    Reads (symbol sign place) tokens found rest ↔
      tokens = found :: rest ∧ found.kind = .symbol sign := by
  simp [symbol, reads_require]

@[simp] theorem reads_name {role : String} {tokens rest : List Token} {found : Name} :
    Reads (name role) tokens found rest ↔
      ∃ token, tokens = token :: rest ∧ token.kind = .identifier ∧
        found = ⟨token.lexeme, token.span⟩ := by
  simp only [name, reads_bind, reads_require, isIdentifier_iff, reads_pure]
  constructor
  · rintro ⟨token, _, ⟨rfl, identifier⟩, rfl, rfl⟩
    exact ⟨token, rfl, identifier, rfl⟩
  · rintro ⟨token, rfl, identifier, rfl⟩
    exact ⟨token, rest, ⟨rfl, identifier⟩, rfl, rfl⟩

/-- An optional symbol is read exactly where it stands. -/
theorem reads_optionalSymbol {sign : Symbol} {tokens rest : List Token} {found : Option Token} :
    Reads (optionalSymbol sign) tokens found rest ↔
      (∃ token, tokens = token :: rest ∧ token.kind = .symbol sign ∧ found = some token) ∨
        (Avoids (·.isSymbol sign) tokens ∧ tokens = rest ∧ found = none) := by
  simp [optionalSymbol, reads_optional]

/-- A named function is seen where the word `fun` stands before an identifier. -/
theorem reads_seesNamedFunction {tokens rest : List Token} {found : Bool} :
    Reads Grammar.seesNamedFunction tokens found rest ↔
      tokens = rest ∧
        (found = true ↔ ∃ word name others, tokens = word :: name :: others ∧
          word.kind = .keyword .fun ∧ name.kind = .identifier) := by
  unfold Reads Grammar.seesNamedFunction
  split
  · next word name others =>
      simp only [Reply.mk.injEq, Except.ok.injEq, and_true, List.cons.injEq]
      constructor
      · intro reads
        obtain ⟨rfl, rfl⟩ := reads
        refine ⟨rfl, ?_⟩
        rw [Bool.and_eq_true, isKeyword_iff, isIdentifier_iff]
        constructor
        · intro kinds
          exact ⟨word, name, others, ⟨rfl, rfl, rfl⟩, kinds⟩
        · intro present
          obtain ⟨_, _, _, ⟨rfl, rfl, rfl⟩, kinds⟩ := present
          exact kinds
      · intro present
        obtain ⟨rfl, found_iff⟩ := present
        refine ⟨?_, rfl⟩
        rw [Bool.eq_iff_iff, found_iff, Bool.and_eq_true, isKeyword_iff, isIdentifier_iff]
        constructor
        · intro kinds
          exact ⟨word, name, others, ⟨rfl, rfl, rfl⟩, kinds⟩
        · intro present
          obtain ⟨_, _, _, ⟨rfl, rfl, rfl⟩, kinds⟩ := present
          exact kinds
  · next short =>
      have absent : ¬ ∃ word name others, tokens = word :: name :: others ∧
          word.kind = .keyword .fun ∧ name.kind = .identifier := by
        intro present
        obtain ⟨word, name, others, same, _⟩ := present
        exact short word name others same
      simp only [Reply.mk.injEq, Except.ok.injEq, and_true, absent, iff_false,
        Bool.not_eq_true]
      constructor
      · intro reads
        obtain ⟨rfl, rfl⟩ := reads
        exact ⟨rfl, rfl⟩
      · intro present
        obtain ⟨rfl, rfl⟩ := present
        exact ⟨rfl, rfl⟩

end Lox.Parser
