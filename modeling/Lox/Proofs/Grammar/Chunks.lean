import Mathlib.Data.List.Forall2
import Lox.Proofs.Grammar.Exactness
import Lox.Proofs.Grammar.Recovery

/-!
Contract: a program in chunks, each of which ends in its only semicolon.

No declaration goes on behind the semicolon of a chunk in which it could have ended, and reading
resumes nowhere inside of one. So the chunks of a program are read as if each was all there is:
what is wrong with one is found, and nothing else is found because of it.

Main statement: `Program.ofTokens_flatten`.

Owns: chunks, findings in tokens that are put one behind the other. Does not own: chunks in a block.
-/

set_option autoImplicit false

namespace Lox

namespace Grammar

open Lox.Parser

/-! ## Tokens without a place to resume -/

/-- If there are tokens they end in a semicolon, and reading resumes nowhere before: there is no
other semicolon, and only the first of them may begin a statement. -/
structure Undivided (tokens : List Token) : Prop where
  closed : tokens ≠ [] → Closed tokens
  single : ∀ token ∈ tokens.dropLast, token.kind.isSymbol .semicolon = false
  within : ∀ token ∈ tokens.tail, token.kind.startsStatement = false

theorem closed_iff {tokens : List Token} :
    Closed tokens ↔ ∃ last ∈ tokens.getLast?, last.kind.isSymbol .semicolon = true := by
  obtain rfl | ⟨front, last, rfl⟩ := List.eq_nil_or_concat tokens
  · simp [Closed]
  · simp [Closed, isSymbol_iff]

instance (tokens : List Token) : Decidable (Closed tokens) := decidable_of_iff _ closed_iff.symm

instance (tokens : List Token) : Decidable (Undivided tokens) :=
  decidable_of_iff
    ((tokens ≠ [] → Closed tokens) ∧
      (∀ token ∈ tokens.dropLast, token.kind.isSymbol .semicolon = false) ∧
      ∀ token ∈ tokens.tail, token.kind.startsStatement = false)
    ⟨fun ⟨closed, single, within⟩ => ⟨closed, single, within⟩,
      fun ⟨closed, single, within⟩ => ⟨closed, single, within⟩⟩

namespace Undivided

variable {tokens : List Token}

theorem suffix {rest : List Token} (undivided : Undivided tokens) (later : rest <:+ tokens) :
    Undivided rest := by
  obtain ⟨taken, rfl⟩ := later
  obtain ⟨closed, single, within⟩ := undivided
  refine ⟨fun present => ?_, fun token member => single token ?_,
    fun token member => within token ?_⟩
  · exact (closed (List.append_ne_nil_of_right_ne_nil taken present)).suffix
      (List.suffix_append taken rest) present
  · rw [List.dropLast_append_of_ne_nil (List.ne_nil_of_mem (List.dropLast_subset rest member))]
    exact List.mem_append_right taken member
  · cases taken with
    | nil => exact member
    | cons _ others => exact List.mem_append_right others (List.mem_of_mem_tail member)

/-- Wherever reading fails it resumes behind all of them. -/
theorem resume_append (undivided : Undivided tokens) (present : tokens ≠ []) (more : List Token) :
    resume (tokens ++ more) = more := by
  obtain ⟨token, rest, rfl⟩ := List.exists_cons_of_ne_nil present
  show resumeBehind token (rest ++ more) = more
  clear present
  induction rest generalizing token with
  | nil =>
      have isSemicolon := (undivided.closed (List.cons_ne_nil token [])).single
      cases more <;> simp [resumeBehind, isSemicolon]
  | cons other others inductionHypothesis =>
      have noSemicolon := undivided.single token List.mem_cons_self
      have stays := undivided.within other List.mem_cons_self
      simp only [List.cons_append, resumeBehind, noSemicolon, stays, Bool.or_self]
      exact inductionHypothesis other (undivided.suffix (List.suffix_cons token _))

end Undivided

/-! ## One behind the other -/

/-- The complaints are about tokens, not about the end of all tokens. -/
def Placed (complaints : List Complaint) : Prop :=
  ∀ complaint ∈ complaints, complaint.token ≠ none

theorem placed_append {first second : List Complaint} :
    Placed (first ++ second) ↔ Placed first ∧ Placed second :=
  List.forall_mem_append

/-- A round that fails at a token has not taken all of them. -/
theorem rest_ne_nil_of_error {tokens : List Token} {complaint : Complaint}
    (fails : (reading tokens).outcome = .error complaint)
    (placed : Placed (reading tokens).complaints) : (reading tokens).rest ≠ [] := by
  obtain ⟨complains, _, about⟩ := fatal_of_reading fails
  intro left
  rw [left] at about
  exact placed complaint complains about

namespace Undivided

variable {tokens : List Token}

/-- A round is the same whatever follows the tokens, but for an `else`. -/
theorem reading_append (undivided : Undivided tokens) (present : tokens ≠ [])
    (placed : Placed (reading tokens).complaints) {more : List Token}
    (avoids : Avoids (·.isKeyword .else) more) :
    reading (tokens ++ more) = (reading tokens).before more := by
  have enough := boundFor_le (List.prefix_append tokens more).length_le
  obtain ⟨⟨_, _, _, same⟩, ends⟩ := (contained_constructs (boundFor (tokens ++ more))).2.2 tokens
  rw [declaration_eq_reading enough] at same ends
  have closed := undivided.closed present
  by_cases left : (reading tokens).rest = []
  · rcases outcome : (reading tokens).outcome with complaint | found
    · exact absurd left (rest_ne_nil_of_error outcome placed)
    · exact (ends closed found outcome left).2 more avoids
  · exact same closed left more

/-- The next round begins where it begins without what follows, in front of that. -/
theorem next_before (undivided : Undivided tokens) (placed : Placed (reading tokens).complaints)
    (more : List Token) : ((reading tokens).before more).next = (reading tokens).next ++ more := by
  rcases outcome : (reading tokens).outcome with complaint | found
  · have left := undivided.suffix (reading_recorded tokens).suffix
    have resumes := left.resume_append (rest_ne_nil_of_error outcome placed)
    have alone : resume (reading tokens).rest = [] := by
      simpa only [List.append_nil] using resumes []
    simp only [Reply.next, Reply.before, outcome, alone, resumes, List.nil_append]
  · simp only [Reply.next, Reply.before, outcome]

/-- What is found in the tokens is found whatever follows them, but for an `else`, and what is found
there is found behind it. -/
theorem findings_append (undivided : Undivided tokens)
    (placed : Placed (findings tokens).complaints) {more : List Token}
    (avoids : Avoids (·.isKeyword .else) more) :
    findings (tokens ++ more) = findings tokens ++ findings more := by
  induction tokens using rounds.induct with
  | case1 => simp
  | case2 token rest inductionHypothesis =>
      have present := List.cons_ne_nil token rest
      rw [findings_of_ne_nil present] at placed ⊢
      obtain ⟨placedFirst, placedOthers⟩ := placed_append.mp placed
      have next := undivided.next_before placedFirst more
      have others := inductionHypothesis
        (undivided.suffix (reading_next_suffix (token :: rest))) placedOthers
      rw [findings_of_ne_nil (List.append_ne_nil_of_left_ne_nil present more),
        undivided.reading_append present placedFirst avoids, next, others,
        Findings.append_assoc]
      rfl

end Undivided

/-! ## Chunks -/

/-- Tokens that are a statement, or a wrong one, whatever follows: the last is their only semicolon,
only the first may begin a statement and it is no `else`, and, if the tokens are read alone up to
the mark, nothing is wrong at the mark. -/
structure Chunk (mark : Token) (tokens : List Token) : Prop extends Undivided tokens where
  present : tokens ≠ []
  meaningful : ∀ token ∈ tokens, Meaningful token
  avoids : Avoids (·.isKeyword .else) tokens
  alone : ∀ error ∈ Program.syntaxErrors (tokens ++ [mark]), error.place ≠ .atEnd

instance (token : Token) : Decidable (Meaningful token) :=
  inferInstanceAs (Decidable (_ ∧ _))

instance (test : Token.Kind → Bool) (tokens : List Token) : Decidable (Avoids test tokens) :=
  inferInstanceAs (Decidable (∀ token ∈ tokens.head?, test token.kind = false))

instance (mark : Token) (tokens : List Token) : Decidable (Chunk mark tokens) :=
  decidable_of_iff
    (Undivided tokens ∧ tokens ≠ [] ∧ (∀ token ∈ tokens, Meaningful token) ∧
      Avoids (·.isKeyword .else) tokens ∧
      ∀ error ∈ Program.syntaxErrors (tokens ++ [mark]), error.place ≠ .atEnd)
    ⟨fun ⟨undivided, present, meaningful, avoids, alone⟩ =>
        ⟨undivided, present, meaningful, avoids, alone⟩,
      fun ⟨undivided, present, meaningful, avoids, alone⟩ =>
        ⟨undivided, present, meaningful, avoids, alone⟩⟩

/-- What is wrong with the chunks, if each is read alone. -/
def errorsAlone (mark : Token) (chunks : List (List Token)) : List SyntaxError :=
  chunks.flatMap fun chunk => Program.syntaxErrors (chunk ++ [mark])

/-- What is found in the chunks, if each is read alone. -/
def foundAlone (chunks : List (List Token)) : Findings where
  statements := chunks.flatMap fun chunk => (findings chunk).statements
  complaints := chunks.flatMap fun chunk => (findings chunk).complaints

theorem syntaxErrors_of_append_mark {mark : Token} {tokens : List Token}
    (meaningful : ∀ token ∈ tokens, Meaningful token) (ends : mark.kind = .endOfSource) :
    Program.syntaxErrors (tokens ++ [mark]) = (findings tokens).complaints.map
      (Complaint.toError (Text.of (tokens ++ [mark])).finish) := by
  rw [Program.syntaxErrors_eq_findings, Text.tokens_of_append_mark meaningful ends]

/-- The error of a complaint about a token does not tell where the tokens end. -/
theorem map_toError_of_placed {complaints : List Complaint} (placed : Placed complaints)
    (finish other : Span) :
    complaints.map (Complaint.toError finish) = complaints.map (Complaint.toError other) := by
  refine List.map_congr_left fun complaint member => ?_
  obtain ⟨token, about⟩ := Option.ne_none_iff_exists'.mp (placed complaint member)
  simp only [Complaint.toError, about]

theorem Chunk.placed {mark : Token} {chunk : List Token} (isChunk : Chunk mark chunk)
    (ends : mark.kind = .endOfSource) : Placed (findings chunk).complaints := by
  intro complaint member about
  refine isChunk.alone (complaint.toError (Text.of (chunk ++ [mark])).finish) ?_ ?_
  · rw [syntaxErrors_of_append_mark isChunk.meaningful ends]
    exact List.mem_map_of_mem member
  · simp only [Complaint.toError, about]

section Chunks

variable {mark : Token} {chunks : List (List Token)} (ends : mark.kind = .endOfSource)
  (each : ∀ chunk ∈ chunks, Chunk mark chunk)
include each

theorem meaningful_flatten : ∀ token ∈ chunks.flatten, Meaningful token := by
  intro token member
  obtain ⟨chunk, among, member⟩ := List.mem_flatten.mp member
  exact (each chunk among).meaningful token member

theorem avoids_flatten {more : List Token} (avoids : Avoids (·.isKeyword .else) more) :
    Avoids (·.isKeyword .else) (chunks.flatten ++ more) := by
  cases chunks with
  | nil => exact avoids
  | cons chunk others =>
      have first := each chunk List.mem_cons_self
      obtain ⟨token, rest, rfl⟩ := List.exists_cons_of_ne_nil first.present
      exact avoids_cons.mpr (avoids_cons.mp first.avoids)

include ends

/-- In chunks is found what is found in each alone. -/
theorem findings_flatten {more : List Token} (avoids : Avoids (·.isKeyword .else) more) :
    findings (chunks.flatten ++ more) = foundAlone chunks ++ findings more := by
  induction chunks with
  | nil => exact (Findings.nil_append _).symm
  | cons chunk others inductionHypothesis =>
      obtain ⟨first, behind⟩ := List.forall_mem_cons.mp each
      rw [List.flatten_cons, List.append_assoc, first.findings_append (first.placed ends)
        (avoids_flatten behind avoids), inductionHypothesis behind, ← Findings.append_assoc]
      rfl

/-- What is wrong with a chunk alone is wrong with it wherever the tokens end. -/
theorem errorsAlone_eq (finish : Span) :
    errorsAlone mark chunks = (foundAlone chunks).complaints.map (Complaint.toError finish) := by
  rw [errorsAlone, foundAlone, List.map_flatMap]
  refine List.flatMap_congr fun chunk among => ?_
  have isChunk := each chunk among
  rw [syntaxErrors_of_append_mark isChunk.meaningful ends]
  exact map_toError_of_placed (isChunk.placed ends) _ finish

end Chunks

end Grammar

open Grammar

theorem Program.ofTokens_of_complaints {tokens : List Token}
    (present : (findings (Text.of tokens).tokens).complaints ≠ []) :
    Program.ofTokens tokens = .error ((findings (Text.of tokens).tokens).complaints.map
      (Complaint.toError (Text.of tokens).finish)) := by
  rw [ofTokens_eq]
  split
  · next absent => exact absurd absent present
  · rfl

theorem Program.ofTokens_of_no_complaints {tokens : List Token}
    (absent : (findings (Text.of tokens).tokens).complaints = []) :
    Program.ofTokens tokens = .ok ⟨(findings (Text.of tokens).tokens).statements⟩ := by
  rw [ofTokens_eq, absent]

/-- Reading chunks one behind the other finds the errors that are found in each alone, and if there
are none the statements that are found in each alone. -/
theorem Program.ofTokens_flatten {mark finish : Token} {chunks : List (List Token)}
    (ends : mark.kind = .endOfSource) (finishes : finish.kind = .endOfSource)
    (each : ∀ chunk ∈ chunks, Chunk mark chunk) :
    (errorsAlone mark chunks ≠ [] →
      Program.ofTokens (chunks.flatten ++ [finish]) = .error (errorsAlone mark chunks)) ∧
    (errorsAlone mark chunks = [] → ∃ programs : List Program,
      List.Forall₂ (fun chunk program => Program.ofTokens (chunk ++ [mark]) = .ok program)
        chunks programs ∧
      Program.ofTokens (chunks.flatten ++ [finish]) = .ok ⟨programs.flatMap (·.statements)⟩) := by
  have found : findings (Text.of (chunks.flatten ++ [finish])).tokens = foundAlone chunks := by
    have all := findings_flatten ends each (Parser.avoids_nil _)
    rw [List.append_nil, findings_nil, Findings.append_nil] at all
    rw [Text.tokens_of_append_mark (meaningful_flatten each) finishes, all]
  rw [errorsAlone_eq ends each (Text.of (chunks.flatten ++ [finish])).finish, ← found]
  refine ⟨fun some => ofTokens_of_complaints (mt List.map_eq_nil_iff.mpr some), fun none => ?_⟩
  rw [List.map_eq_nil_iff] at none
  refine ⟨chunks.map fun chunk => ⟨(findings chunk).statements⟩, ?_, ?_⟩
  · rw [List.forall₂_map_right_iff, List.forall₂_same]
    intro chunk among
    have tokens := Text.tokens_of_append_mark (each chunk among).meaningful ends
    have absent : (findings (Text.of (chunk ++ [mark])).tokens).complaints = [] := by
      rw [found] at none
      rw [tokens]
      exact List.flatMap_eq_nil_iff.mp none chunk among
    rw [ofTokens_of_no_complaints absent, tokens]
  · rw [ofTokens_of_no_complaints none, found, List.flatMap_map]
    rfl

/-- The chunks `var = ;`, `if (a) b;` and `print c d;` have an error each in the first and the
last, and so has the program of all three. The one of the second chunk twice has none. -/
theorem Program.ofTokens_flatten_separately :
    let word (kind : Token.Kind) (lexeme : String) (column : Nat) : Token :=
      ⟨kind, lexeme, ⟨1, column, lexeme.length⟩⟩
    let declaration := [word (.keyword .var) "var" 1, word (.symbol .equal) "=" 5,
      word (.symbol .semicolon) ";" 7]
    let conditional := [word (.keyword .if) "if" 9, word (.symbol .leftParen) "(" 12,
      word .identifier "a" 13, word (.symbol .rightParen) ")" 14, word .identifier "b" 16,
      word (.symbol .semicolon) ";" 17]
    let printing := [word (.keyword .print) "print" 19, word .identifier "c" 25,
      word .identifier "d" 27, word (.symbol .semicolon) ";" 28]
    let mark := word .endOfSource "" 29
    (∀ chunk ∈ [declaration, conditional, printing], Chunk mark chunk) ∧
      Program.ofTokens ([declaration, conditional, printing].flatten ++ [mark]) = .error
        [⟨.name "variable", ⟨1, 5, 1⟩, .atLexeme "="⟩,
          ⟨.symbol .semicolon "after value", ⟨1, 27, 1⟩, .atLexeme "d"⟩] ∧
      ∃ program, Program.ofTokens ([conditional, conditional].flatten ++ [mark]) = .ok program := by
  intro word declaration conditional printing mark
  have each : ∀ chunk ∈ [declaration, conditional, printing], Chunk mark chunk := by decide +kernel
  have twice : ∀ chunk ∈ [conditional, conditional], Chunk mark chunk := by decide +kernel
  have isEnd : mark.kind = .endOfSource := rfl
  have wrong := (Program.ofTokens_flatten isEnd isEnd each).1 (by decide +kernel)
  have right := (Program.ofTokens_flatten isEnd isEnd twice).2 (by decide +kernel)
  refine ⟨each, ?_, ?_⟩
  · exact wrong.trans (congrArg Except.error (by decide +kernel))
  · obtain ⟨programs, _, read⟩ := right
    exact ⟨_, read⟩

end Lox
