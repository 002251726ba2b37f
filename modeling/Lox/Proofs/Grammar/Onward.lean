import Lox.Proofs.Grammar.Complaints
import Lox.Proofs.Grammar.Reads

/-!
Contract: what a parser makes of tokens does not depend on what comes behind them.

A parser looks no further than the next token, so what it answers stays the same when more tokens
follow, as long as it has not come to the end. Once it has, it may take up what follows. The
exception are tokens that end in a semicolon: no expression takes one, and no statement that has
taken it goes on, but for an `if` that may find its `else` there.

On the way it is kept what stops a parser: a complaint about the next token, of another kind than
those that are only noted.

Main statement: `contained_constructs`.

Owns: complaints that stop, tokens closed by a semicolon, parsers contained in them. Does not own:
programs.
-/

set_option autoImplicit false

namespace Lox

/-- Whether reading stops at such a mistake. The others are noted, and reading goes on. -/
def SyntaxError.Cause.stops : SyntaxError.Cause → Bool
  | .assignmentTarget | .tooMany _ => false
  | _ => true

/-- The reply with more tokens behind those that it left. -/
def Reply.before {α : Type} (more : List Token) (reply : Reply α) : Reply α :=
  { reply with rest := reply.rest ++ more }

namespace Parser

variable {α β : Type}

/-! ## Tokens that end in a semicolon -/

/-- The last of the tokens is a semicolon. -/
def Closed (tokens : List Token) : Prop :=
  ∃ front last, tokens = front ++ [last] ∧ last.kind = .symbol .semicolon

theorem Closed.ne_nil {tokens : List Token} (closed : Closed tokens) : tokens ≠ [] := by
  obtain ⟨front, last, rfl, _⟩ := closed
  simp

theorem Closed.suffix {tokens rest : List Token} (closed : Closed tokens) (later : rest <:+ tokens)
    (present : rest ≠ []) : Closed rest := by
  obtain ⟨front, last, rfl, ends⟩ := closed
  obtain rfl | ⟨other, rfl, _⟩ := List.suffix_concat_iff.mp later
  · exact absurd rfl present
  · exact ⟨other, last, rfl, ends⟩

theorem Closed.single {token : Token} (closed : Closed [token]) :
    token.kind = .symbol .semicolon := by
  obtain ⟨front, last, same, ends⟩ := closed
  cases front with
  | nil =>
      obtain rfl := (List.cons.inj same).1
      exact ends
  | cons first others => simp at same

/-! ## Parsers that look no further than the next token -/

/-- On these tokens the parser never goes back. It stops at the next token, for another mistake
than those that it notes. If the tokens are closed and it leaves some, more tokens make no
difference. -/
structure OnwardAt (tokens : List Token) (parser : Parser α) : Prop where
  suffix : (parser tokens).rest <:+ tokens
  stopped : ∀ complaint, (parser tokens).outcome = .error complaint →
    complaint.cause.stops = true ∧ complaint.token = (parser tokens).rest.head?
  noted : ∀ complaint ∈ (parser tokens).notes, complaint.cause.stops = false
  same : Closed tokens → (parser tokens).rest ≠ [] →
    ∀ more, parser (tokens ++ more) = (parser tokens).before more

/-- Moreover the parser does not take all of these tokens, if they are closed. One that may close
takes them without looking at what follows, unless that is an `else`. -/
structure ContainedAt (closing : Bool) (tokens : List Token) (parser : Parser α) : Prop
    extends OnwardAt tokens parser where
  ends : Closed tokens → ∀ value, (parser tokens).outcome = .ok value →
    (parser tokens).rest = [] → closing = true ∧ ∀ more, Avoids (·.isKeyword .else) more →
      parser (tokens ++ more) = (parser tokens).before more

/-- The parser goes onward on all tokens. -/
def Onward (parser : Parser α) : Prop := ∀ tokens, OnwardAt tokens parser

/-- The parser is contained in all closed tokens. -/
def Contained (closing : Bool) (parser : Parser α) : Prop :=
  ∀ tokens, ContainedAt closing tokens parser

/-- The parser finds nothing where no token is left. -/
def Needs (parser : Parser α) : Prop := ∀ value, (parser []).outcome ≠ .ok value

theorem Contained.onward {closing : Bool} {parser : Parser α}
    (contained : Contained closing parser) : Onward parser :=
  fun tokens => (contained tokens).toOnwardAt

/-- What never closes may be where something closes. -/
theorem ContainedAt.weaken {closing : Bool} {tokens : List Token} {parser : Parser α}
    (contained : ContainedAt false tokens parser) : ContainedAt closing tokens parser where
  toOnwardAt := contained.toOnwardAt
  ends closed value found left := nomatch (contained.ends closed value found left).1

theorem Contained.weaken {closing : Bool} {parser : Parser α}
    (contained : Contained false parser) : Contained closing parser :=
  fun tokens => (contained tokens).weaken

/-! ## Sequences -/

theorem OnwardAt.bind {tokens : List Token} {first : Parser α} {next : α → Parser β}
    (onward : OnwardAt tokens first)
    (onwardNext : ∀ value rest, rest <:+ tokens → OnwardAt rest (next value)) :
    OnwardAt tokens (first >>= next) := by
  obtain ⟨suffix, stopped, noted, same⟩ := onward
  rcases answer : first tokens with ⟨complaint | value, middle, notes⟩
  · rw [answer] at suffix stopped noted same
    have stops : (first >>= next) tokens = ⟨.error complaint, middle, notes⟩ :=
      bind_of_error answer
    refine ⟨?_, ?_, ?_, fun closed left more => ?_⟩
    · rw [stops]
      exact suffix
    · rw [stops]
      rintro _ ⟨⟩
      exact stopped complaint rfl
    · rw [stops]
      exact noted
    · rw [stops] at left ⊢
      exact bind_of_error (same closed left more)
  · rw [answer] at suffix noted same
    obtain ⟨suffixNext, stoppedNext, notedNext, sameNext⟩ := onwardNext value middle suffix
    have goesOn : (first >>= next) tokens =
        { next value middle with notes := notes ++ (next value middle).notes } := bind_of_ok answer
    refine ⟨?_, ?_, fun complaint member => ?_, fun closed left more => ?_⟩
    · rw [goesOn]
      exact suffixNext.trans suffix
    · rw [goesOn]
      exact stoppedNext
    · rw [goesOn] at member
      obtain member | member := List.mem_append.mp member
      · exact noted complaint member
      · exact notedNext complaint member
    · rw [goesOn] at left ⊢
      have present : middle ≠ [] := by
        rintro rfl
        exact left (List.suffix_nil.mp suffixNext)
      have there := sameNext (closed.suffix suffix present) left more
      rw [bind_of_ok (same closed present more), there]
      rfl

/-- A sequence is contained if what comes last is, and if nothing else has taken all tokens. -/
theorem ContainedAt.bind_of_exhausted {closing : Bool} {tokens : List Token} {first : Parser α}
    {next : α → Parser β} (onward : OnwardAt tokens first)
    (containedNext : ∀ value, Contained closing (next value))
    (exhausted : Closed tokens → ∀ value notes found, first tokens = ⟨.ok value, [], notes⟩ →
      (next value []).outcome = .ok found → closing = true ∧
        ∀ more, Avoids (·.isKeyword .else) more →
          (first >>= next) (tokens ++ more) = ((first >>= next) tokens).before more) :
    ContainedAt closing tokens (first >>= next) where
  toOnwardAt := onward.bind fun value rest _ => (containedNext value rest).toOnwardAt
  ends closed found finds left := by
    obtain ⟨suffix, _, _, same⟩ := onward
    rcases answer : first tokens with ⟨complaint | value, middle, notes⟩
    · rw [bind_of_error answer] at finds
      cases finds
    · rw [answer] at suffix same
      have goesOn : (first >>= next) tokens =
          { next value middle with notes := notes ++ (next value middle).notes } :=
        bind_of_ok answer
      by_cases present : middle = []
      · subst present
        rw [goesOn] at finds
        exact exhausted closed value notes found answer finds
      · rw [goesOn] at finds left ⊢
        obtain ⟨closes, behind⟩ :=
          (containedNext value middle).ends (closed.suffix suffix present) found finds left
        refine ⟨closes, fun more avoids => ?_⟩
        rw [bind_of_ok (same closed present more), behind more avoids]
        rfl

theorem ContainedAt.bind {closing : Bool} {tokens : List Token} {first : Parser α}
    {next : α → Parser β} (contained : ContainedAt false tokens first)
    (containedNext : ∀ value, Contained closing (next value)) :
    ContainedAt closing tokens (first >>= next) := by
  refine .bind_of_exhausted contained.toOnwardAt containedNext
    fun closed value notes _ answer _ => ?_
  have taken := contained.ends closed value
  rw [answer] at taken
  exact nomatch (taken rfl rfl).1

namespace Onward

theorem bind {first : Parser α} {next : α → Parser β} (onward : Onward first)
    (onwardNext : ∀ value, Onward (next value)) : Onward (first >>= next) :=
  fun tokens => (onward tokens).bind fun value rest _ => onwardNext value rest

theorem ite {condition : Bool} {yes no : Parser α} (onwardYes : Onward yes)
    (onwardNo : Onward no) : Onward (if condition then yes else no) := by
  split
  · exact onwardYes
  · exact onwardNo

/-- Where what follows finds nothing without a token, nothing has taken all tokens before. -/
theorem bind_needing {closing : Bool} {first : Parser α} {next : α → Parser β}
    (onward : Onward first) (containedNext : ∀ value, Contained closing (next value))
    (needs : ∀ value, Needs (next value)) : Contained closing (first >>= next) :=
  fun tokens => .bind_of_exhausted (onward tokens) containedNext
    fun _ value _ found _ finds => absurd finds (needs value found)

end Onward

theorem Needs.bind {first : Parser α} {next : α → Parser β} (needs : Needs first) :
    Needs (first >>= next) := by
  intro found
  rcases answer : first [] with ⟨complaint | value, rest, notes⟩
  · rw [bind_of_error answer]
    exact fun finds => nomatch finds
  · exact absurd (by rw [answer]) (needs value)

namespace Contained

variable {closing : Bool}

theorem bind {first : Parser α} {next : α → Parser β} (contained : Contained false first)
    (containedNext : ∀ value, Contained closing (next value)) :
    Contained closing (first >>= next) :=
  fun tokens => (contained tokens).bind containedNext

/-- What finds the same whatever follows but an `else`, where no token is left too, may come behind
a statement. -/
theorem bind_ending {first : Parser α} {next : α → Parser β} (contained : Contained true first)
    (containedNext : ∀ value, Contained true (next value))
    (idle : ∀ value, ∃ found, ∀ more, Avoids (·.isKeyword .else) more →
      next value more = ⟨.ok found, more, []⟩) : Contained true (first >>= next) := by
  intro tokens
  refine .bind_of_exhausted (contained tokens).toOnwardAt containedNext
    fun closed value notes _ answer _ => ⟨rfl, fun more avoids => ?_⟩
  have taken := (contained tokens).ends closed value
  rw [answer] at taken
  obtain ⟨found, finds⟩ := idle value
  have behind : first (tokens ++ more) = ⟨.ok value, more, notes⟩ := (taken rfl rfl).2 more avoids
  rw [bind_of_ok behind, bind_of_ok answer, finds more avoids, finds [] (avoids_nil _)]
  rfl

theorem ite {condition : Bool} {yes no : Parser α} (containedYes : Contained closing yes)
    (containedNo : Contained closing no) : Contained closing (if condition then yes else no) := by
  split
  · exact containedYes
  · exact containedNo

/-! ## Steps -/

/-- What leaves the tokens in place and finds what the next one tells. -/
theorem of_silent {parser : Parser α} (finds : List Token → α)
    (silent : ∀ tokens, parser tokens = ⟨.ok (finds tokens), tokens, []⟩)
    (front : ∀ tokens more, Closed tokens → finds (tokens ++ more) = finds tokens) :
    Contained closing parser := by
  intro tokens
  refine ⟨⟨?_, ?_, ?_, fun closed _ more => ?_⟩, fun closed _ _ left => ?_⟩
  · simp [silent]
  · simp [silent]
  · simp [silent]
  · rw [silent, silent, front tokens more closed]
    rfl
  · rw [silent] at left
    exact absurd left closed.ne_nil

theorem pure (value : α) : Contained closing (pure value : Parser α) :=
  of_silent (fun _ => value) (fun _ => rfl) fun _ _ _ => rfl

theorem head?_append {tokens : List Token} (closed : Closed tokens) (more : List Token) :
    (tokens ++ more).head? = tokens.head? := by
  obtain ⟨token, rest, rfl⟩ := List.exists_cons_of_ne_nil closed.ne_nil
  rfl

theorem peek : Contained false peek :=
  of_silent _ (fun _ => rfl) fun _ more closed => head?_append closed more

theorem sees (test : Token.Kind → Bool) : Contained false (sees test) :=
  of_silent _ (fun _ => rfl) fun _ more closed => by rw [head?_append closed more]

theorem nextSpan : Contained false nextSpan :=
  of_silent _ (fun _ => rfl) fun _ more closed => by rw [head?_append closed more]

theorem atEnd : Contained false atEnd :=
  of_silent _ (fun _ => rfl) fun tokens more closed => by
    obtain ⟨token, rest, rfl⟩ := List.exists_cons_of_ne_nil closed.ne_nil
    rfl

theorem fail {cause : SyntaxError.Cause} (stops : cause.stops = true) :
    Contained closing (fail cause : Parser α) := by
  intro tokens
  have fails (tokens : List Token) : (Parser.fail cause : Parser α) tokens =
      ⟨.error ⟨cause, tokens.head?⟩, tokens, []⟩ := rfl
  refine ⟨⟨List.suffix_rfl, ?_, by simp [fails], fun closed _ more => ?_⟩, by simp [fails]⟩
  · rw [fails]
    rintro _ ⟨⟩
    exact ⟨stops, rfl⟩
  · rw [fails, fails, head?_append closed more]
    rfl

theorem note {cause : SyntaxError.Cause} (goesOn : cause.stops = false) (token : Option Token) :
    Contained false (note cause token) := by
  intro tokens
  have notes (tokens : List Token) : Parser.note cause token tokens =
      ⟨.ok (), tokens, [⟨cause, token⟩]⟩ := rfl
  refine ⟨⟨List.suffix_rfl, by simp [notes], ?_, fun _ _ _ => rfl⟩, fun closed _ _ left => ?_⟩
  · intro complaint member
    obtain rfl := List.mem_singleton.mp member
    exact goesOn
  · exact absurd left closed.ne_nil

theorem skip : Onward skip := by
  intro tokens
  cases tokens with
  | nil =>
      have found : Parser.skip [] = ⟨.ok .nowhere, [], []⟩ := rfl
      exact ⟨List.suffix_rfl, by simp [found], by simp [found],
        fun closed => absurd rfl closed.ne_nil⟩
  | cons token rest =>
      have found (rest : List Token) :
          Parser.skip (token :: rest) = ⟨.ok token.span, rest, []⟩ := rfl
      exact ⟨List.suffix_cons token rest, by simp [found], by simp [found], fun _ _ _ => rfl⟩

/-- Taking the next token, which is no semicolon. -/
theorem skip_of_ne {token : Token} {rest : List Token} (other : token.kind ≠ .symbol .semicolon) :
    ContainedAt false (token :: rest) Parser.skip where
  toOnwardAt := skip (token :: rest)
  ends closed _ _ left := by
    obtain rfl : rest = [] := left
    exact absurd closed.single other

/-- What the next token alone decides: whether it is taken, or why not. -/
theorem of_front {parser : Parser α} (nil : OnwardAt [] parser)
    (front : ∀ token : Token,
      (∃ value, (∀ rest, parser (token :: rest) = ⟨.ok value, rest, []⟩) ∧
        (token.kind = .symbol .semicolon → closing = true)) ∨
      ∃ outcome, (∀ rest, parser (token :: rest) = ⟨outcome, token :: rest, []⟩) ∧
        ∀ complaint, outcome = .error complaint →
          complaint.cause.stops = true ∧ complaint.token = some token) :
    Contained closing parser := by
  intro tokens
  cases tokens with
  | nil => exact ⟨nil, fun closed => absurd rfl closed.ne_nil⟩
  | cons token rest =>
      obtain ⟨value, taken, closes⟩ | ⟨outcome, stays, refused⟩ := front token
      · refine ⟨⟨?_, by simp [taken], by simp [taken], fun _ _ more => ?_⟩,
          fun closed _ _ left => ?_⟩
        · rw [taken]
          exact List.suffix_cons token rest
        · rw [List.cons_append, taken, taken]
          rfl
        · rw [taken] at left
          obtain rfl : rest = [] := left
          refine ⟨closes closed.single, fun more _ => ?_⟩
          rw [List.cons_append, taken, taken]
          rfl
      · refine ⟨⟨?_, ?_, by simp [stays], fun _ _ more => ?_⟩, fun _ _ _ left => ?_⟩
        · simp [stays]
        · rw [stays]
          exact refused
        · rw [List.cons_append, stays, stays]
          rfl
        · rw [stays] at left
          cases left

theorem require {test : Token.Kind → Bool} {cause : SyntaxError.Cause} (stops : cause.stops = true)
    (closes : test (.symbol .semicolon) = true → closing = true) :
    Contained closing (require test cause) := by
  have absent : Parser.require test cause [] = ⟨.error ⟨cause, none⟩, [], []⟩ := rfl
  refine of_front ⟨List.suffix_rfl, ?_, by simp [absent], fun closed => absurd rfl closed.ne_nil⟩
    fun token => ?_
  · rw [absent]
    rintro _ ⟨⟩
    exact ⟨stops, rfl⟩
  · by_cases fits : test token.kind = true
    · refine .inl ⟨token, fun rest => by simp [Parser.require, fits], fun isSemicolon => ?_⟩
      exact closes (isSemicolon ▸ fits)
    · refine .inr ⟨.error ⟨cause, some token⟩, fun rest => by simp [Parser.require, fits], ?_⟩
      rintro _ ⟨⟩
      exact ⟨stops, rfl⟩

theorem optional {test : Token.Kind → Bool}
    (closes : test (.symbol .semicolon) = true → closing = true) :
    Contained closing (optional test) := by
  have absent : Parser.optional test [] = ⟨.ok none, [], []⟩ := rfl
  refine of_front ⟨List.suffix_rfl, by simp [absent], by simp [absent],
    fun closed => absurd rfl closed.ne_nil⟩ fun token => ?_
  by_cases fits : test token.kind = true
  · refine .inl ⟨some token, fun rest => by simp [Parser.optional, fits], fun isSemicolon => ?_⟩
    exact closes (isSemicolon ▸ fits)
  · exact .inr ⟨.ok none, fun rest => by simp [Parser.optional, fits], by simp⟩

theorem optionalAs {meaning : Token.Kind → Option α} (other : meaning (.symbol .semicolon) = none) :
    Contained false (optionalAs meaning) := by
  have absent : Parser.optionalAs meaning [] = ⟨.ok none, [], []⟩ := rfl
  refine of_front ⟨List.suffix_rfl, by simp [absent], by simp [absent],
    fun closed => absurd rfl closed.ne_nil⟩ fun token => ?_
  cases meant : meaning token.kind with
  | none => exact .inr ⟨.ok none, fun rest => by simp [Parser.optionalAs, meant], by simp⟩
  | some value =>
      refine .inl ⟨some (value, token.span), fun rest => by simp [Parser.optionalAs, meant], ?_⟩
      intro isSemicolon
      rw [isSemicolon, other] at meant
      cases meant

theorem symbol {sign : Symbol} (place : String) (other : sign ≠ .semicolon) :
    Contained false (symbol sign place) :=
  require rfl fun isSemicolon => absurd (by simpa using isSemicolon) other.symm

theorem optionalSymbol {sign : Symbol} (other : sign ≠ .semicolon) :
    Contained false (optionalSymbol sign) :=
  optional fun isSemicolon => absurd (by simpa using isSemicolon) other.symm

theorem name (role : String) : Contained false (name role) :=
  (require rfl (by simp [Token.Kind.isIdentifier])).bind fun _ => pure _

theorem map {parser : Parser α} (contained : Contained false parser) (function : α → β) :
    Contained closing (function <$> parser) :=
  contained.bind fun value => pure (function value)

/-- What begins by looking at the next token is what that token says. -/
theorem bind_peek {next : Option Token → Parser β} (absent : Contained closing (next none))
    (present : ∀ token rest, ContainedAt closing (token :: rest) (next (some token))) :
    Contained closing (Parser.peek >>= next) := by
  have seen (tokens : List Token) : (Parser.peek >>= next) tokens = next tokens.head? tokens := by
    have found : Parser.peek tokens = ⟨.ok tokens.head?, tokens, []⟩ := rfl
    exact bind_of_ok found
  intro tokens
  cases tokens with
  | nil =>
      obtain ⟨suffix, stopped, noted, _⟩ := (absent []).toOnwardAt
      rw [← List.head?_nil, ← seen] at suffix stopped noted
      exact ⟨⟨suffix, stopped, noted, fun closed => absurd rfl closed.ne_nil⟩,
        fun closed => absurd rfl closed.ne_nil⟩
  | cons token rest =>
      have there (rest : List Token) :
          (Parser.peek >>= next) (token :: rest) = next (some token) (token :: rest) := seen _
      obtain ⟨⟨suffix, stopped, noted, same⟩, ends⟩ := present token rest
      rw [← there] at suffix stopped noted same ends
      refine ⟨⟨suffix, stopped, noted, fun closed left more => ?_⟩,
        fun closed value found left => ?_⟩
      · rw [← same closed left more]
        exact there _
      · obtain ⟨closes, behind⟩ := ends closed value found left
        refine ⟨closes, fun more avoids => ?_⟩
        rw [← behind more avoids]
        exact there _

end Contained

theorem Onward.pure (value : α) : Onward (pure value : Parser α) :=
  fun tokens => (Contained.pure value tokens : ContainedAt false tokens _).toOnwardAt

theorem Onward.fail {cause : SyntaxError.Cause} (stops : cause.stops = true) :
    Onward (fail cause : Parser α) :=
  fun tokens => (Contained.fail stops tokens : ContainedAt false tokens _).toOnwardAt

/-! ## Repetitions -/

theorem Onward.itemsUntil {item : Parser α} (onward : Onward item) (stop : Token.Kind → Bool)
    (bound : Nat) : Onward (itemsUntil stop item bound) := by
  induction bound with
  | zero => exact .fail rfl
  | succ bound inductionHypothesis =>
      exact Contained.atEnd.onward.bind fun _ => (Contained.sees stop).onward.bind fun _ =>
        .ite (.pure _) (onward.bind fun _ => inductionHypothesis.bind fun _ => .pure _)

theorem Contained.firstByComma {item : Parser α} {more : Parser (List α)}
    (contained : Contained false item) (containedMore : Contained false more) :
    Contained false
      (do
        let first ← item
        match ← Parser.optionalSymbol .comma with
        | none => return [first]
        | some _ => return first :: (← more)) := by
  refine contained.bind fun first => (optionalSymbol (by decide)).bind fun found => ?_
  cases found with
  | none => exact pure _
  | some _ => exact containedMore.bind fun _ => pure _

theorem Contained.itemsByComma {item : Parser α} (contained : Contained false item)
    (things : String) (bound count : Nat) :
    Contained false (itemsByComma things item bound count) := by
  induction bound generalizing count with
  | zero => exact fail rfl
  | succ bound inductionHypothesis =>
      have here := contained.firstByComma (inductionHypothesis (count + 1))
      simp only [Parser.itemsByComma]
      split
      · exact peek.bind fun _ => (note rfl _).bind fun _ => here
      · exact here

theorem Contained.parenthesizedItems {item : Parser α} (contained : Contained false item)
    (things : String) (bound : Nat) : Contained false (parenthesizedItems things item bound) := by
  have closing (found : List α) : Contained false
      (do
        let closing ← Parser.symbol .rightParen ("after " ++ things)
        Pure.pure (found, closing)) :=
    (symbol _ (by decide)).bind fun _ => pure _
  exact (sees _).bind fun _ => .ite ((pure _).bind closing)
    ((contained.itemsByComma things bound 0).bind closing)

end Parser

end Lox
