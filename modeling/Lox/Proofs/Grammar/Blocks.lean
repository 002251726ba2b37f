import Lox.Proofs.Grammar.Chunks

/-!
Contract: what a mistake inside a block causes.

The declarations of a block are read like those of a program, up to the closing brace. But where
one fails the block fails with it, and reading resumes outside: from there on the rest of the
block is read as if its opening brace was not there. So its closing brace is wrong as well.

Main statements: `findings_block_of_error`, `Program.syntaxErrors_block`.

Owns: the declarations of a block, chunks in a block. Does not own: programs without blocks.
-/

set_option autoImplicit false

namespace Lox

/-! ## Repetition, step by step -/

namespace Parser

variable {α : Type} {stop : Token.Kind → Bool} {item : Parser α} {token : Token}
  {rest left : List Token} {notes : List Complaint}

theorem itemsUntil_of_stop (stops : stop token.kind = true) (bound : Nat) :
    itemsUntil stop item (bound + 1) (token :: rest) = ⟨.ok [], token :: rest, []⟩ := by
  simp [itemsUntil, bind, andThen, pure, succeed, atEnd, sees, stops]

theorem itemsUntil_of_error {complaint : Complaint} (goesOn : stop token.kind = false)
    (fails : item (token :: rest) = ⟨.error complaint, left, notes⟩) (bound : Nat) :
    itemsUntil stop item (bound + 1) (token :: rest) = ⟨.error complaint, left, notes⟩ := by
  simp [itemsUntil, bind, andThen, atEnd, sees, goesOn, fails]

theorem itemsUntil_of_ok {first : α} (goesOn : stop token.kind = false)
    (reads : item (token :: rest) = ⟨.ok first, left, notes⟩) (bound : Nat) :
    itemsUntil stop item (bound + 1) (token :: rest) =
      ⟨(itemsUntil stop item bound left).outcome.map (first :: ·),
        (itemsUntil stop item bound left).rest,
        notes ++ (itemsUntil stop item bound left).notes⟩ := by
  simp only [itemsUntil, bind, andThen, pure, succeed, atEnd, sees, goesOn, reads,
    List.isEmpty_cons, List.head?_cons, Option.any_some, Bool.or_self, Bool.false_eq_true, if_false,
    List.nil_append]
  rcases itemsUntil stop item bound left with ⟨complaint | others, behind, more⟩
  · rfl
  · simp [Except.map]

end Parser

namespace Grammar

open Lox.Parser

/-! ## The declarations of a block -/

/-- What reading declarations up to a closing brace answers. -/
def items (tokens : List Token) : Reply (List Stmt) :=
  itemsUntil (·.isSymbol .rightBrace) (declaration (boundFor tokens)) (tokens.length + 1) tokens

theorem items_settles {tokens : List Token} {bound rounds : Nat}
    (enough : boundFor tokens ≤ bound) (all : tokens.length < rounds) :
    SettlesAt 0 tokens
      (itemsUntil (·.isSymbol .rightBrace) (declaration (boundFor tokens)) (tokens.length + 1))
      (itemsUntil (·.isSymbol .rightBrace) (declaration bound) rounds) :=
  (declaration_settles enough).itemsUntil _ (Nat.le_refl _) all tokens (Nat.lt_succ_self _)

/-- Every bound that the tokens cannot use up gives this answer. -/
theorem itemsUntil_eq_items {tokens : List Token} {bound rounds : Nat}
    (enough : boundFor tokens ≤ bound) (all : tokens.length < rounds) :
    itemsUntil (·.isSymbol .rightBrace) (declaration bound) rounds tokens = items tokens :=
  (items_settles enough all).same

theorem items_recorded (tokens : List Token) :
    Recorded tokens (items tokens).complaints (items tokens).rest :=
  (items_settles (Nat.le_refl _) (Nat.lt_succ_self _)).recorded

section Front

variable {token : Token} {rest left : List Token} {notes : List Complaint}

theorem items_of_closing (closing : token.kind.isSymbol .rightBrace = true) :
    items (token :: rest) = ⟨.ok [], token :: rest, []⟩ := by
  rw [items]
  exact itemsUntil_of_stop closing _

theorem items_of_error {complaint : Complaint} (goesOn : token.kind.isSymbol .rightBrace = false)
    (fails : reading (token :: rest) = ⟨.error complaint, left, notes⟩) :
    items (token :: rest) = ⟨.error complaint, left, notes⟩ := by
  rw [reading] at fails
  rw [items]
  exact itemsUntil_of_error goesOn fails _

theorem items_of_ok {found : Stmt} (goesOn : token.kind.isSymbol .rightBrace = false)
    (reads : reading (token :: rest) = ⟨.ok found, left, notes⟩) :
    items (token :: rest) = ⟨(items left).outcome.map (found :: ·), (items left).rest,
      notes ++ (items left).notes⟩ := by
  have shorter : left.length < (token :: rest).length := by
    have taken : (reading (token :: rest)).rest.length < (token :: rest).length :=
      reading_taken (by rw [reads])
    rwa [reads] at taken
  have others : itemsUntil (·.isSymbol .rightBrace) (declaration (boundFor (token :: rest)))
      (token :: rest).length left = items left :=
    itemsUntil_eq_items (boundFor_le (Nat.le_of_lt shorter)) shorter
  rw [reading] at reads
  rw [items, ← others]
  exact itemsUntil_of_ok goesOn reads _

end Front

/-- What reading declarations comes to, declaration by declaration. -/
theorem items_induction (holds : List Token → Reply (List Stmt) → Prop)
    (ended : holds [] ⟨.ok [], [], []⟩)
    (closed : ∀ token rest, token.kind.isSymbol .rightBrace = true →
      holds (token :: rest) ⟨.ok [], token :: rest, []⟩)
    (failed : ∀ tokens complaint left notes, tokens ≠ [] →
      reading tokens = ⟨.error complaint, left, notes⟩ →
        holds tokens ⟨.error complaint, left, notes⟩)
    (found : ∀ tokens tree left notes, tokens ≠ [] → reading tokens = ⟨.ok tree, left, notes⟩ →
      holds left (items left) → holds tokens ⟨(items left).outcome.map (tree :: ·),
        (items left).rest, notes ++ (items left).notes⟩)
    (tokens : List Token) : holds tokens (items tokens) := by
  induction tokens using rounds.induct with
  | case1 => exact ended
  | case2 token rest inductionHypothesis =>
      have present := List.cons_ne_nil token rest
      by_cases isBrace : token.kind.isSymbol .rightBrace = true
      · rw [items_of_closing isBrace]
        exact closed token rest isBrace
      · rw [Bool.not_eq_true] at isBrace
        rcases reads : reading (token :: rest) with ⟨complaint | tree, left, notes⟩
        · rw [items_of_error isBrace reads]
          exact failed _ complaint left notes present reads
        · rw [items_of_ok isBrace reads]
          rw [reads] at inductionHypothesis
          exact found _ tree left notes present reads inductionHypothesis

/-- Reading the declarations of a block complains as reading them in a program does. -/
theorem complaints_findings_eq_items (tokens : List Token) :
    (findings tokens).complaints =
      (items tokens).complaints ++ (findings (items tokens).next).complaints := by
  refine items_induction (fun tokens reply => (findings tokens).complaints =
    reply.complaints ++ (findings reply.next).complaints) rfl (fun _ _ _ => rfl) ?_ ?_ tokens
  · intro tokens complaint left notes present reads
    rw [findings_of_ne_nil present, reads]
    rfl
  · intro tokens tree left notes present reads others
    rw [findings_of_ne_nil present, reads]
    show notes ++ [] ++ (findings left).complaints = _
    rw [others]
    rcases items left with ⟨complaint | trees, behind, more⟩
    · simp [Reply.complaints, Reply.next, Except.map]
    · simp [Reply.complaints, Reply.next, Except.map]

/-- Reading that does not fail stops at a closing brace, or at the end. -/
theorem rest_of_items_ok (tokens : List Token) :
    ∀ trees, (items tokens).outcome = .ok trees →
      Avoids (fun kind => !kind.isSymbol .rightBrace) (items tokens).rest := by
  refine items_induction (fun _ reply => ∀ trees, reply.outcome = .ok trees →
    Avoids (fun kind => !kind.isSymbol .rightBrace) reply.rest) ?_ ?_ ?_ ?_ tokens
  · exact fun _ _ => avoids_nil _
  · intro token rest isBrace _ _
    simp [isBrace]
  · intro _ complaint _ _ _ _ trees fails
    cases fails
  · intro _ tree left _ _ _ others trees reads
    rcases outcome : (items left).outcome with complaint | behind
    · rw [outcome] at reads
      cases reads
    · exact others behind outcome

/-- Up to their only closing brace, reading declarations stops there or at the end. -/
theorem rest_of_items_concat {front : List Token} {closing : Token} {trees : List Stmt}
    (inside : ∀ token ∈ front, token.kind.isSymbol .rightBrace = false)
    (reads : (items (front ++ [closing])).outcome = .ok trees) :
    (items (front ++ [closing])).rest = [] ∨ (items (front ++ [closing])).rest = [closing] := by
  have stops := rest_of_items_ok _ trees reads
  obtain left | ⟨others, left, within⟩ :=
    List.suffix_concat_iff.mp (items_recorded (front ++ [closing])).suffix
  · exact .inl left
  · refine .inr ?_
    cases others with
    | nil => exact left
    | cons token others =>
        rw [left, List.cons_append, avoids_cons] at stops
        simp [inside token (within.mem List.mem_cons_self)] at stops

/-! ## Blocks -/

/-- The bound inside of a block suffices too. -/
theorem itemsUntil_inside (tokens : List Token) :
    itemsUntil (·.isSymbol .rightBrace) (declaration (boundFor tokens + 2)) (boundFor tokens + 2)
      tokens = items tokens :=
  itemsUntil_eq_items (Nat.le_add_right _ 2) (by unfold boundFor; omega)

section Blocks

variable {opening : Token} (opens : opening.kind = .symbol .leftBrace)
include opens

/-- Behind an opening brace the rest of a block is read, with a bound that suffices. -/
theorem reading_block (tokens : List Token) :
    reading (opening :: tokens) =
      (blockRest (declaration (boundFor tokens + 2)) (boundFor tokens + 2) >>= fun trees =>
        pure (.block trees opening.span)) tokens := by
  obtain ⟨kind, lexeme, span⟩ := opening
  obtain rfl : kind = .symbol .leftBrace := opens
  cases tokens <;> rfl

variable {tokens rest : List Token} {notes : List Complaint}

theorem reading_block_of_error {complaint : Complaint}
    (fails : items tokens = ⟨.error complaint, rest, notes⟩) :
    reading (opening :: tokens) = ⟨.error complaint, rest, notes⟩ := by
  rw [reading_block opens]
  exact bind_of_error (bind_of_error ((itemsUntil_inside tokens).trans fails))

theorem reading_block_of_ok {closing : Token} {trees : List Stmt}
    (closes : closing.kind.isSymbol .rightBrace = true)
    (reads : items tokens = ⟨.ok trees, closing :: rest, notes⟩) :
    reading (opening :: tokens) = ⟨.ok (.block trees opening.span), rest, notes⟩ := by
  have brace : symbol .rightBrace "after block" (closing :: rest) = ⟨.ok closing, rest, []⟩ := by
    simp only [symbol, require, closes, if_true]
  have whole : blockRest (declaration (boundFor tokens + 2)) (boundFor tokens + 2) tokens =
      ⟨.ok trees, rest, notes⟩ := by
    refine (bind_of_ok ((itemsUntil_inside tokens).trans reads)).trans ?_
    rw [bind_of_ok brace]
    simp [pure, succeed]
  rw [reading_block opens, bind_of_ok whole]
  simp [pure, succeed]

/-- A block of which a declaration fails complains as if its opening brace was not there. -/
theorem findings_block_of_error {complaint : Complaint}
    (fails : (items tokens).outcome = .error complaint) :
    (findings (opening :: tokens)).complaints = (findings tokens).complaints := by
  rw [complaints_findings_eq_items tokens, findings_of_ne_nil (List.cons_ne_nil opening tokens)]
  rcases answer : items tokens with ⟨outcome, rest, notes⟩
  rw [answer] at fails
  obtain rfl : outcome = .error complaint := fails
  rw [reading_block_of_error opens answer]
  rfl

/-- A block that is read whole leaves what is behind its closing brace. -/
theorem findings_block_of_ok {closing : Token} {trees : List Stmt}
    (closes : closing.kind.isSymbol .rightBrace = true)
    (reads : items tokens = ⟨.ok trees, closing :: rest, notes⟩) :
    (findings (opening :: tokens)).complaints = notes ++ (findings rest).complaints := by
  rw [findings_of_ne_nil (List.cons_ne_nil opening tokens), reading_block_of_ok opens closes reads]
  simp [Reply.complaints, Reply.next]

end Blocks

/-! ## Chunks in a block -/

theorem cause_toError (finish : Span) (complaint : Complaint) :
    (complaint.toError finish).cause = complaint.cause := by
  unfold Complaint.toError
  split <;> rfl

/-- The complaints that reading declarations notes do not stop it. -/
theorem notes_items (tokens : List Token) :
    ∀ complaint ∈ (items tokens).notes, complaint.cause.stops = false :=
  ((contained_constructs _).2.2.onward.itemsUntil _ _ tokens).noted

/-- Without a fatal complaint and a closing brace, reading declarations goes on behind. -/
theorem items_append_ok {tokens more : List Token} (undivided : Undivided tokens)
    (placed : Placed (findings tokens).complaints)
    (noFatal : ∀ complaint ∈ (findings tokens).complaints, complaint.cause.stops = false)
    (inside : ∀ token ∈ tokens, token.kind.isSymbol .rightBrace = false)
    (avoids : Avoids (·.isKeyword .else) more)
    (behind : ∃ trees, (items more).outcome = .ok trees) :
    ∃ trees, (items (tokens ++ more)).outcome = .ok trees := by
  induction tokens using rounds.induct with
  | case1 => exact behind
  | case2 token rest inductionHypothesis =>
      have present := List.cons_ne_nil token rest
      rw [findings_of_ne_nil present] at placed noFatal
      obtain ⟨placedFirst, placedOthers⟩ := placed_append.mp placed
      obtain ⟨noFatalFirst, noFatalOthers⟩ := List.forall_mem_append.mp noFatal
      have later := reading_next_suffix (token :: rest)
      have others := inductionHypothesis (undivided.suffix later) placedOthers noFatalOthers
        fun token member => inside token (later.mem member)
      have same := undivided.reading_append present placedFirst avoids
      rcases answer : reading (token :: rest) with ⟨complaint | found, left, notes⟩
      · have fails : (reading (token :: rest)).outcome = .error complaint := by rw [answer]
        obtain ⟨complains, fatal, _⟩ := fatal_of_reading fails
        exact absurd fatal (by rw [noFatalFirst complaint complains]; decide)
      · rw [answer] at others same
        obtain ⟨trees, reads⟩ := others
        refine ⟨found :: trees, ?_⟩
        rw [List.cons_append] at same ⊢
        rw [items_of_ok (inside token List.mem_cons_self) same]
        exact congrArg (Except.map (found :: ·)) reads

theorem reading_closing {closing : Token} (closes : closing.kind = .symbol .rightBrace) :
    reading [closing] = ⟨.error ⟨.expression, some closing⟩, [closing], []⟩ := by
  obtain ⟨kind, lexeme, span⟩ := closing
  obtain rfl : kind = .symbol .rightBrace := closes
  rfl

/-- The closing brace alone begins no statement. -/
theorem complaints_closing {closing : Token} (closes : closing.kind = .symbol .rightBrace) :
    (findings [closing]).complaints = [⟨.expression, some closing⟩] := by
  rw [findings_of_ne_nil (List.cons_ne_nil closing []), reading_closing closes]
  have resumes : resume [closing] = [] := rfl
  simp [Reply.complaints, Reply.next, resumes]

theorem avoids_closing {closing : Token} (closes : closing.kind = .symbol .rightBrace) :
    Avoids (·.isKeyword .else) [closing] := by
  rw [avoids_cons, closes]
  rfl

section Chunks

variable {mark opening closing : Token} {chunks : List (List Token)}
  (ends : mark.kind = .endOfSource) (closes : closing.kind = .symbol .rightBrace)
  (each : ∀ chunk ∈ chunks, Chunk mark chunk)
  (inside : ∀ chunk ∈ chunks, ∀ token ∈ chunk, token.kind.isSymbol .rightBrace = false)
include ends closes each inside

/-- If nothing fatal is wrong with any chunk, reading goes on to the closing brace. -/
theorem items_flatten_ok
    (noFatal : ∀ complaint ∈ (foundAlone chunks).complaints, complaint.cause.stops = false) :
    ∃ trees, (items (chunks.flatten ++ [closing])).outcome = .ok trees := by
  induction chunks with
  | nil =>
      have isBrace : closing.kind.isSymbol .rightBrace = true := by rw [closes]; rfl
      have found : items ([closing]) = ⟨.ok [], [closing], []⟩ := items_of_closing isBrace
      exact ⟨[], by rw [List.flatten_nil, List.nil_append, found]⟩
  | cons chunk others inductionHypothesis =>
      obtain ⟨first, behind⟩ := List.forall_mem_cons.mp each
      obtain ⟨insideFirst, insideBehind⟩ := List.forall_mem_cons.mp inside
      obtain ⟨noFatalFirst, noFatalBehind⟩ := List.forall_mem_append.mp noFatal
      rw [List.flatten_cons, List.append_assoc]
      exact items_append_ok first.toUndivided (first.placed ends) noFatalFirst insideFirst
        (avoids_flatten behind (avoids_closing closes))
        (inductionHypothesis behind insideBehind noFatalBehind)

/-- What is found in a block is what is wrong with each chunk alone, and if that is fatal for one
of them, that the closing brace begins no statement. -/
theorem complaints_block (opens : opening.kind = .symbol .leftBrace) :
    (findings (opening :: (chunks.flatten ++ [closing]))).complaints =
      (foundAlone chunks).complaints ++
        if (foundAlone chunks).complaints.any (·.cause.stops) then [⟨.expression, some closing⟩]
        else [] := by
  have outside : (findings (chunks.flatten ++ [closing])).complaints =
      (foundAlone chunks).complaints ++ [⟨.expression, some closing⟩] := by
    rw [findings_flatten ends each (avoids_closing closes), Findings.complaints_append,
      complaints_closing closes]
  have isBrace : closing.kind.isSymbol .rightBrace = true := by rw [closes]; rfl
  have noted := notes_items (chunks.flatten ++ [closing])
  have asOutside := complaints_findings_eq_items (chunks.flatten ++ [closing])
  rw [outside] at asOutside
  rcases answer : items (chunks.flatten ++ [closing]) with ⟨complaint | trees, rest, notes⟩
  · -- The block fails, so it complains as the chunks and the closing brace do outside of one.
    have fatal : (foundAlone chunks).complaints.any (·.cause.stops) = true := by
      by_contra noFatal
      simp only [List.any_eq_true, not_exists, not_and, Bool.not_eq_true] at noFatal
      obtain ⟨trees, reads⟩ := items_flatten_ok ends closes each inside noFatal
      rw [answer] at reads
      cases reads
    rw [findings_block_of_error opens (by rw [answer]), outside, if_pos fatal]
  · have reads : (items (chunks.flatten ++ [closing])).outcome = .ok trees := by rw [answer]
    have stop : _ ∨ _ := rest_of_items_concat (fun token member => by
      obtain ⟨chunk, among, member⟩ := List.mem_flatten.mp member
      exact inside chunk among token member) reads
    rw [answer] at noted asOutside stop
    obtain rfl | rfl := stop
    · -- The complaint about the closing brace would have been noted inside of the block.
      have wrong : (⟨.expression, some closing⟩ : Complaint) ∈ notes := by
        have all : (foundAlone chunks).complaints ++ [⟨.expression, some closing⟩] = notes := by
          simpa [Reply.complaints, Reply.next] using asOutside
        rw [← all]
        simp
      exact absurd (noted _ wrong) (by simp [SyntaxError.Cause.stops])
    · have all : (foundAlone chunks).complaints = notes := by
        simpa [Reply.complaints, Reply.next, complaints_closing closes] using asOutside
      rw [findings_block_of_ok opens isBrace answer, all, findings_nil, if_neg]
      simp only [List.any_eq_true, not_exists, not_and, Bool.not_eq_true]
      exact noted

end Chunks

end Grammar

open Grammar

/-- What is wrong with a block of chunks is what is wrong with each chunk alone, and, if that is
fatal for one of them, that the closing brace begins no statement. So the errors are those of the
chunks exactly if none is fatal. -/
theorem Program.syntaxErrors_block {mark opening closing finish : Token}
    {chunks : List (List Token)} (ends : mark.kind = .endOfSource)
    (finishes : finish.kind = .endOfSource) (opens : opening.kind = .symbol .leftBrace)
    (closes : closing.kind = .symbol .rightBrace) (each : ∀ chunk ∈ chunks, Chunk mark chunk)
    (inside : ∀ chunk ∈ chunks, ∀ token ∈ chunk, token.kind.isSymbol .rightBrace = false) :
    Program.syntaxErrors (opening :: (chunks.flatten ++ [closing]) ++ [finish]) =
      errorsAlone mark chunks ++
        if (errorsAlone mark chunks).any (·.cause.stops) then
          [⟨.expression, closing.span, .atLexeme closing.lexeme⟩]
        else [] := by
  have meaningful : ∀ token ∈ opening :: (chunks.flatten ++ [closing]), Meaningful token := by
    refine List.forall_mem_cons.mpr ⟨?_, List.forall_mem_append.mpr
      ⟨meaningful_flatten each, List.forall_mem_singleton.mpr ?_⟩⟩
    · rw [Meaningful, opens]
      exact ⟨rfl, rfl⟩
    · rw [Meaningful, closes]
      exact ⟨rfl, rfl⟩
  rw [syntaxErrors_of_append_mark meaningful finishes,
    complaints_block ends closes each inside opens, List.map_append, apply_ite (List.map _),
    errorsAlone_eq ends each
      (Text.of (opening :: (chunks.flatten ++ [closing]) ++ [finish])).finish, List.any_map]
  simp only [Function.comp_def, cause_toError]
  rfl

/-- In `{ this = b; print c d; }` the first chunk has an error that is not fatal and the second a
fatal one, so that the closing brace is wrong too. With the first chunk alone it is not. -/
theorem Program.syntaxErrors_block_fatal :
    let word (kind : Token.Kind) (lexeme : String) (column : Nat) : Token :=
      ⟨kind, lexeme, ⟨1, column, lexeme.length⟩⟩
    let opening := word (.symbol .leftBrace) "\x7b" 1
    let assignment := [word (.keyword .this) "this" 3, word (.symbol .equal) "=" 8,
      word .identifier "b" 10, word (.symbol .semicolon) ";" 11]
    let printing := [word (.keyword .print) "print" 13, word .identifier "c" 19,
      word .identifier "d" 21, word (.symbol .semicolon) ";" 22]
    let closing := word (.symbol .rightBrace) "\x7d" 24
    let mark := word .endOfSource "" 25
    (∀ chunk ∈ [assignment, printing], Chunk mark chunk) ∧
      Program.syntaxErrors
          (opening :: ([assignment, printing].flatten ++ [closing]) ++ [mark]) =
        [⟨.assignmentTarget, ⟨1, 8, 1⟩, .atLexeme "="⟩,
          ⟨.symbol .semicolon "after value", ⟨1, 21, 1⟩, .atLexeme "d"⟩,
          ⟨.expression, ⟨1, 24, 1⟩, .atLexeme "\x7d"⟩] ∧
      Program.syntaxErrors (opening :: ([assignment].flatten ++ [closing]) ++ [mark]) =
        [⟨.assignmentTarget, ⟨1, 8, 1⟩, .atLexeme "="⟩] := by
  intro word opening assignment printing closing mark
  have isEnd : mark.kind = .endOfSource := rfl
  have each : ∀ chunk ∈ [assignment, printing], Chunk mark chunk := by decide +kernel
  have inside : ∀ chunk ∈ [assignment, printing], ∀ token ∈ chunk,
      token.kind.isSymbol .rightBrace = false := by decide
  refine ⟨each, ?_, ?_⟩
  · rw [Program.syntaxErrors_block isEnd isEnd rfl rfl each inside]
    decide +kernel
  · rw [Program.syntaxErrors_block isEnd isEnd rfl rfl
      (List.forall_mem_singleton.mpr (each _ List.mem_cons_self))
      (List.forall_mem_singleton.mpr (inside _ List.mem_cons_self))]
    decide +kernel

/-- In `{ var ; }` the chunk has one error, at its semicolon. The block has two: the closing brace,
with which nothing is wrong, is reported as well. -/
theorem Program.closingBrace_wrong :
    let word (kind : Token.Kind) (lexeme : String) (column : Nat) : Token :=
      ⟨kind, lexeme, ⟨1, column, lexeme.length⟩⟩
    let opening := word (.symbol .leftBrace) "\x7b" 1
    let chunk := [word (.keyword .var) "var" 3, word (.symbol .semicolon) ";" 7]
    let closing := word (.symbol .rightBrace) "\x7d" 9
    let mark := word .endOfSource "" 10
    Chunk mark chunk ∧
      (∀ token ∈ chunk, token.kind.isSymbol .leftBrace = false ∧
        token.kind.isSymbol .rightBrace = false) ∧
      errorsAlone mark [chunk] = [⟨.name "variable", ⟨1, 7, 1⟩, .atLexeme ";"⟩] ∧
      Program.syntaxErrors (opening :: ([chunk].flatten ++ [closing]) ++ [mark]) =
        [⟨.name "variable", ⟨1, 7, 1⟩, .atLexeme ";"⟩,
          ⟨.expression, ⟨1, 9, 1⟩, .atLexeme "\x7d"⟩] := by
  intro word opening chunk closing mark
  exact ⟨by decide +kernel, by decide, by decide +kernel, by decide +kernel⟩

end Lox
