import Lox.Lexeme.Stream
import Lox.Proofs.Lexeme.Covered

/-!
Contract: sources that are scanned in two parts, a line feed between them.

No lexeme that is complete goes on behind a line feed: a word, a number, a symbol and a
comment to the end of the line end before it, and a string or block comment that has its
closing mark ends there. So a source that leaves no string and no block comment open is scanned
as if nothing followed, odd characters included, and what follows is scanned as a source of its
own, so many lines further down.

Main statements: `Stream.items_joined`, `Scan.of_joined`.

Owns: lexemes before a line feed, scans in two parts, scans of moved texts. Does not own:
what is read from the tokens.
-/

set_option autoImplicit false

namespace Lox

/-- Whether the error is a string or a block comment that does not end. -/
def ScanError.Cause.isUnterminated : ScanError.Cause → Bool
  | .unexpectedCharacter _ => false
  | .unterminatedString | .unterminatedBlockComment => true

/-! ## Lexemes before a line feed -/

theorem takeWhile_append_stopped {test : Char → Bool} {stop : Char} (stops : test stop = false)
    (characters more : List Char) :
    (characters ++ stop :: more).takeWhile test = characters.takeWhile test := by
  induction characters with
  | nil => simp [stops]
  | cons first rest inductionHypothesis =>
      simp only [List.cons_append, List.takeWhile_cons, inductionHypothesis]

/-- Where the first stretch ends inside, it ends there whatever follows. -/
theorem takeWhile_append_of_length_lt {test : Char → Bool} {characters : List Char}
    (inside : (characters.takeWhile test).length < characters.length) (more : List Char) :
    (characters ++ more).takeWhile test = characters.takeWhile test := by
  induction characters with
  | nil => cases inside
  | cons first rest inductionHypothesis =>
      by_cases goesOn : test first = true
      · simp only [List.takeWhile_cons, goesOn, if_true, List.length_cons] at inside
        simp only [List.cons_append, List.takeWhile_cons, goesOn, if_true]
        rw [inductionHypothesis (Nat.lt_of_succ_lt_succ inside)]
      · simp [goesOn]

namespace Lexeme

/-- The lexeme is no string and no block comment that lacks its end. -/
def Ended (lexeme : Lexeme) : Prop :=
  ∀ cause, lexeme.outcome = .error cause → cause.isUnterminated = false

variable (more : List Char)

theorem withEqual_append_line (alone joined : Symbol) (rest : List Char) :
    withEqual alone joined (rest ++ '\n' :: more) = withEqual alone joined rest := by
  cases rest with
  | nil => rfl
  | cons first others =>
      unfold withEqual
      split <;> split <;> simp_all

theorem lineComment_append_line (body : List Char) :
    lineComment (body ++ '\n' :: more) = lineComment body := by
  unfold lineComment
  rw [takeWhile_append_stopped (by decide)]

theorem blockCommentEnd_append {depth taken finish : Nat} {body : List Char}
    (closed : blockCommentEnd depth taken body = some finish) :
    blockCommentEnd depth taken (body ++ more) = some finish := by
  fun_induction blockCommentEnd depth taken body with
  | case1 depth taken rest shallow =>
      simp only [List.cons_append, blockCommentEnd, shallow, if_true]
      exact closed
  | case2 depth taken rest deep inductionHypothesis =>
      simp only [List.cons_append, blockCommentEnd, deep, if_false]
      exact inductionHypothesis closed
  | case3 depth taken rest inductionHypothesis =>
      simp only [List.cons_append, blockCommentEnd]
      exact inductionHypothesis closed
  | case4 depth taken head rest notClosing notOpening inductionHypothesis =>
      have longer := inductionHypothesis closed
      cases rest with
      | nil => simp [blockCommentEnd] at closed
      | cons second others =>
          rw [List.cons_append] at longer ⊢
          rw [List.cons_append, blockCommentEnd]
          · exact longer
          · simp_all
          · simp_all
  | case5 => cases closed

theorem blockComment_append {body : List Char} (ended : (blockComment body).Ended) :
    blockComment (body ++ more) = blockComment body := by
  unfold blockComment at ended ⊢
  split at ended
  · next finish found => simp only [blockCommentEnd_append more found]
  · cases ended _ rfl

theorem quotation_append {body : List Char} (ended : (quotation body).Ended) :
    quotation (body ++ more) = quotation body := by
  unfold quotation at ended ⊢
  simp only at ended ⊢
  split at ended
  · next inside =>
      have insideLonger : (body.takeWhile (· ≠ '"')).length < (body ++ more).length := by
        rw [List.length_append]
        omega
      rw [takeWhile_append_of_length_lt inside, if_pos insideLonger, if_pos inside]
  · cases ended _ rfl

theorem fractionDigits_append_line (characters : List Char) :
    fractionDigits (characters ++ '\n' :: more) = fractionDigits characters := by
  cases characters with
  | nil => rfl
  | cons first rest =>
      by_cases point : first = '.'
      · subst point
        exact takeWhile_append_stopped (by decide) rest more
      · have none (others : List Char) : fractionDigits (first :: others) = [] := by
          unfold fractionDigits
          split <;> simp_all
        rw [List.cons_append, none, none]

theorem numeral_append_line (first : Char) (rest : List Char) :
    numeral first (rest ++ '\n' :: more) = numeral first rest := by
  have behind : (rest ++ '\n' :: more).drop (rest.takeWhile Char.isDigit).length =
      rest.drop (rest.takeWhile Char.isDigit).length ++ '\n' :: more :=
    List.drop_append_of_le_length (length_takeWhile_le Char.isDigit rest)
  unfold numeral
  rw [takeWhile_append_stopped (by decide)]
  simp only [behind, fractionDigits_append_line]

theorem word_append_line (first : Char) (rest : List Char) :
    word first (rest ++ '\n' :: more) = word first rest := by
  unfold word
  rw [takeWhile_append_stopped (by decide)]

/-- What is complete does not go on behind a line feed. -/
theorem at_append_line {first : Char} {rest : List Char} (ended : («at» first rest).Ended) :
    «at» first (rest ++ '\n' :: more) = «at» first rest := by
  unfold «at» at ended ⊢
  split at ended
  all_goals first
    | rfl
    | exact withEqual_append_line more _ _ rest
    | exact quotation_append _ ended
    | skip
  · split at ended
    · exact lineComment_append_line more _
    · exact blockComment_append _ ended
    · next notLine notBlock =>
        cases rest with
        | nil => rfl
        | cons second others =>
            simp only [List.cons_append]
            split <;> simp_all
  · split
    · exact numeral_append_line more _ rest
    · split
      · exact word_append_line more _ rest
      · rfl

/-- No lexeme is the end mark. -/
theorem outcome_ne_end (first : Char) (rest : List Char) :
    («at» first rest).outcome ≠ .ok .endOfSource := by
  have symbols (alone joined : Symbol) : (withEqual alone joined rest).outcome ≠ .ok .endOfSource := by
    unfold withEqual
    split <;> nofun
  unfold «at»
  split
  all_goals first
    | exact symbols _ _
    | (intro same; cases same)
    | skip
  · split
    · nofun
    · unfold blockComment
      split <;> nofun
    · nofun
  · unfold quotation
    simp only
    split <;> nofun
  · split
    · nofun
    · split
      · unfold word
        simp only
        split <;> nofun
      · nofun

end Lexeme

/-! ## Scans -/

namespace Stream

/-- The blanks that are skipped are the longest stretch of them. -/
theorem skipSpace_eq (position : Position) (text : List Char) :
    skipSpace position text =
      (position.afterAll (text.takeWhile Lexeme.isSpace), text.dropWhile Lexeme.isSpace) := by
  induction text generalizing position with
  | nil => rfl
  | cons character rest inductionHypothesis =>
      rw [skipSpace]
      split
      · next space => rw [inductionHypothesis, List.takeWhile_cons_of_pos space,
          List.dropWhile_cons_of_pos space, Position.afterAll_cons]
      · next solid => rw [List.takeWhile_cons_of_neg solid, List.dropWhile_cons_of_neg solid,
          Position.afterAll_nil]

/-- What is skipped are blanks, and what is left does not begin with one. -/
theorem skipSpace_spec {position reached : Position} {text left : List Char}
    (skips : skipSpace position text = (reached, left)) :
    ∃ space, text = space ++ left ∧ reached = position.afterAll space ∧
      (∀ character ∈ space, Lexeme.isSpace character = true) ∧
      ∀ first ∈ left.head?, Lexeme.isSpace first = false := by
  rw [skipSpace_eq] at skips
  obtain ⟨rfl, rfl⟩ := Prod.mk.inj skips
  exact ⟨text.takeWhile Lexeme.isSpace, List.takeWhile_append_dropWhile.symm, rfl,
    fun _ member => List.mem_takeWhile_imp member, Lexeme.stops_dropWhile Lexeme.isSpace text⟩

/-- Blanks are skipped over the end of the first part, if they reach it. -/
theorem skipSpace_append (position : Position) (text more : List Char) :
    skipSpace position (text ++ more) =
      match (skipSpace position text).2 with
      | [] => skipSpace (skipSpace position text).1 more
      | first :: rest => ((skipSpace position text).1, first :: rest ++ more) := by
  induction text generalizing position with
  | nil => rfl
  | cons character rest inductionHypothesis =>
      rw [List.cons_append, skipSpace, skipSpace]
      split
      · exact inductionHypothesis _
      · rfl

end Stream

/-- The text that is read from this position has these items, the end mark included. -/
inductive Scans : Position → List Char → List Item → Prop where
  | finish {position reached : Position} {text : List Char}
      (skips : Stream.skipSpace position text = (reached, [])) :
      Scans position text [.ok ⟨.endOfSource, "", reached.span 0⟩]
  | lexeme {position reached : Position} {text rest : List Char} {first : Char} {items : List Item}
      (skips : Stream.skipSpace position text = (reached, first :: rest))
      (others : Scans (reached.afterAll (first :: rest.take (Lexeme.at first rest).extent))
        (rest.drop (Lexeme.at first rest).extent) items) :
      Scans position text
        (Stream.itemOf (Lexeme.at first rest) reached
          (first :: rest.take (Lexeme.at first rest).extent) :: items)

namespace Scans

/-- A stream that may go on for long enough takes the items of its text. -/
theorem of_take (source : List Char) {bound : Nat} {position : Position} {text : List Char}
    (enough : text.length < bound) :
    Scans position text (Stream.take bound ⟨source, text, position, false⟩) := by
  induction bound generalizing position text with
  | zero => cases enough
  | succ bound inductionHypothesis =>
      cases skips : Stream.skipSpace position text with
      | mk reached left =>
          cases left with
          | nil =>
              have ended : Stream.take bound ⟨source, [], reached, true⟩ = [] := by
                cases bound <;> rfl
              simp only [Stream.take, Stream.next?, skips, ended, Bool.false_eq_true, if_false]
              exact .finish skips
          | cons first rest =>
              obtain ⟨space, same, _⟩ := Stream.skipSpace_spec skips
              have shorter : (rest.drop (Lexeme.at first rest).extent).length < bound := by
                have lengths := congrArg List.length same
                rw [List.length_append, List.length_cons] at lengths
                rw [List.length_drop]
                omega
              simp only [Stream.take, Stream.next?, skips]
              exact .lexeme skips (inductionHypothesis shorter)

theorem unique {position : Position} {text : List Char} {items others : List Item}
    (one : Scans position text items) (two : Scans position text others) : items = others := by
  induction one generalizing others with
  | finish skips =>
      cases two with
      | finish again =>
          obtain ⟨rfl, _⟩ := Prod.mk.inj (skips.symm.trans again)
          rfl
      | lexeme again _ => cases skips.symm.trans again
  | lexeme skips _ inductionHypothesis =>
      cases two with
      | finish again => cases skips.symm.trans again
      | lexeme again behind =>
          obtain ⟨rfl, left⟩ := Prod.mk.inj (skips.symm.trans again)
          obtain ⟨rfl, rfl⟩ := List.cons.inj left
          rw [inductionHypothesis behind]

/-- What a text has from a position on depends on where its blanks lead. -/
theorem of_skipSpace_eq {position other : Position} {text longer : List Char} {items : List Item}
    (scans : Scans position text items)
    (same : Stream.skipSpace other longer = Stream.skipSpace position text) :
    Scans other longer items := by
  cases scans with
  | finish skips => exact .finish (same.trans skips)
  | lexeme skips others => exact .lexeme (same.trans skips) others

/-- A lexeme that is scanned to a token. -/
theorem outcome_of_itemOf {lexeme : Lexeme} {position : Position} {covered : List Char}
    {token : Token} (scanned : Stream.itemOf lexeme position covered = .ok token) :
    lexeme.outcome = .ok token.kind := by
  unfold Stream.itemOf at scanned
  split at scanned
  · next kind outcome =>
      obtain rfl := Except.ok.inj scanned
      exact outcome
  · cases scanned

/-- No error of an unterminated string or block comment is among the items. -/
def Ended (items : List Item) : Prop :=
  ∀ error, .error error ∈ items → error.cause.isUnterminated = false

theorem ended_of_itemOf {lexeme : Lexeme} {position : Position} {covered : List Char}
    {items : List Item} (ended : Ended (Stream.itemOf lexeme position covered :: items)) :
    lexeme.Ended := by
  intro cause outcome
  refine ended ⟨cause, position.span lexeme.marked⟩ (List.mem_cons.mpr (.inl ?_))
  rw [Stream.itemOf, outcome]

/-- Before a line feed a text that leaves nothing open is scanned as if nothing followed; what
follows has the items that it has in the next line. -/
theorem append_line {position : Position} {text : List Char} {items : List Item}
    (scans : Scans position text items) (ended : Ended items) :
    ∃ front mark, items = front ++ [.ok mark] ∧ mark.kind = .endOfSource ∧
      (∀ token, .ok token ∈ front → token.kind.isEnd = false) ∧
      ∀ (more : List Char) (later : List Item),
        Scans ⟨(position.afterAll text).line + 1, 1⟩ more later →
        Scans position (text ++ '\n' :: more) (front ++ later) := by
  induction scans with
  | @finish position reached text skips =>
      refine ⟨[], _, rfl, rfl, fun _ => nofun, fun more later behind => ?_⟩
      obtain ⟨space, same, there, _⟩ := Stream.skipSpace_spec skips
      rw [List.append_nil] at same
      subst same there
      -- The blanks at the end go on over the line feed.
      refine behind.of_skipSpace_eq ?_
      rw [Stream.skipSpace_append, skips]
      rfl
  | @lexeme position reached text rest first items skips others inductionHypothesis =>
      obtain ⟨front, mark, rfl, isMark, unmarked, joins⟩ :=
        inductionHypothesis fun error member => ended error (List.mem_cons_of_mem _ member)
      have complete := ended_of_itemOf ended
      refine ⟨_ :: front, mark, rfl, isMark, ?_, fun more later behind => ?_⟩
      · intro token member
        obtain scanned | member := List.mem_cons.mp member
        · have outcome := outcome_of_itemOf scanned.symm
          cases kind : token.kind with
          | endOfSource => exact absurd (kind ▸ outcome) (Lexeme.outcome_ne_end first rest)
          | _ => rfl
        · exact unmarked token member
      · have whole := Lexeme.at_append_line more complete
        have within := Lexeme.extent_le first rest
        obtain ⟨space, same, there, _⟩ := Stream.skipSpace_spec skips
        have covered : first :: rest =
            (first :: rest.take (Lexeme.at first rest).extent) ++
              rest.drop (Lexeme.at first rest).extent := by
          rw [List.cons_append, List.take_append_drop]
        have reaches : position.afterAll text =
            (reached.afterAll (first :: rest.take (Lexeme.at first rest).extent)).afterAll
              (rest.drop (Lexeme.at first rest).extent) := by
          rw [same, Position.afterAll_append, ← there, ← Position.afterAll_append, ← covered]
        rw [reaches] at behind
        have skipsLonger : Stream.skipSpace position (text ++ '\n' :: more) =
            (reached, first :: (rest ++ '\n' :: more)) := by
          rw [Stream.skipSpace_append, skips]
          rfl
        have taken : (rest ++ '\n' :: more).take (Lexeme.at first rest).extent =
            rest.take (Lexeme.at first rest).extent :=
          List.take_append_of_le_length within
        have left : (rest ++ '\n' :: more).drop (Lexeme.at first rest).extent =
            rest.drop (Lexeme.at first rest).extent ++ '\n' :: more :=
          List.drop_append_of_le_length within
        have longer (scans : Scans _ _ (front ++ later)) := Scans.lexeme skipsLonger scans
        rw [whole, taken, left] at longer
        exact longer (joins more later behind)

end Scans

/-! ## Lower lines -/

/-- The span so many lines further down. -/
def Span.lowered (lines : Nat) (span : Span) : Span :=
  ⟨span.line + lines, span.column, span.length⟩

/-- The position so many lines further down. -/
def Position.lowered (lines : Nat) (position : Position) : Position :=
  ⟨position.line + lines, position.column⟩

/-- The token at another place. -/
def Token.moved (move : Span → Span) (token : Token) : Token :=
  ⟨token.kind, token.lexeme, move token.span⟩

/-- The token, or the error that stands in its place, at another place. -/
def movedItem (move : Span → Span) : Item → Item
  | .ok token => .ok (token.moved move)
  | .error error => .error ⟨error.cause, move error.span⟩

section Lowered

variable (lines : Nat)

theorem Position.after_lowered (position : Position) (character : Char) :
    (position.lowered lines).after character = (position.after character).lowered lines := by
  unfold Position.after
  split
  · simp [Position.lowered, Nat.add_right_comm]
  · rfl

theorem Position.afterAll_lowered (position : Position) (text : List Char) :
    (position.lowered lines).afterAll text = (position.afterAll text).lowered lines := by
  induction text generalizing position with
  | nil => rfl
  | cons character rest inductionHypothesis =>
      rw [Position.afterAll_cons, Position.after_lowered, inductionHypothesis]
      rfl

theorem Position.line_afterAll (position : Position) (text : List Char) :
    (position.afterAll text).line = position.line + text.count '\n' := by
  induction text generalizing position with
  | nil => rfl
  | cons character rest inductionHypothesis =>
      rw [Position.afterAll_cons, inductionHypothesis, List.count_cons]
      by_cases feed : character = '\n'
      · simp only [Position.after, feed, if_true, beq_self_eq_true]
        omega
      · simp [Position.after, feed]

theorem Stream.skipSpace_lowered (position : Position) (text : List Char) :
    skipSpace (position.lowered lines) text =
      ((skipSpace position text).1.lowered lines, (skipSpace position text).2) := by
  induction text generalizing position with
  | nil => rfl
  | cons character rest inductionHypothesis =>
      rw [skipSpace, skipSpace]
      split
      · rw [Position.after_lowered, inductionHypothesis]
      · rfl

theorem Stream.itemOf_lowered (lexeme : Lexeme) (position : Position) (covered : List Char) :
    itemOf lexeme (position.lowered lines) covered =
      movedItem (Span.lowered lines) (itemOf lexeme position covered) := by
  unfold itemOf
  split <;> rfl

/-- The same text further down has the same items further down. -/
theorem Scans.lowered {position : Position} {text : List Char} {items : List Item}
    (scans : Scans position text items) :
    Scans (position.lowered lines) text (items.map (movedItem (Span.lowered lines))) := by
  induction scans with
  | @finish position reached text skips =>
      have skipsLowered : Stream.skipSpace (position.lowered lines) text =
          (reached.lowered lines, []) := by
        rw [Stream.skipSpace_lowered, skips]
      exact .finish skipsLowered
  | @lexeme position reached text rest first items skips others inductionHypothesis =>
      have skipsLowered : Stream.skipSpace (position.lowered lines) text =
          (reached.lowered lines, first :: rest) := by
        rw [Stream.skipSpace_lowered, skips]
      rw [← Position.afterAll_lowered] at inductionHypothesis
      rw [List.map_cons, ← Stream.itemOf_lowered]
      exact .lexeme skipsLowered inductionHypothesis

end Lowered

/-! ## Sources in two parts -/

/-- How many lines further down a text stands behind the source and a line feed. -/
def linesOf (source : String) : Nat := source.toList.count '\n' + 1

/-- Whatever a source is scanned to, its items are scanned from it. -/
theorem Scans.ofString (source : String) :
    Scans .start source.toList (Stream.ofString source).items :=
  .of_take source.toList (Nat.lt_succ_self _)

/-- What stands behind a line feed is scanned further down. -/
theorem Stream.items_of_joins {first : String} {front : List Item}
    (joins : ∀ (more : List Char) (later : List Item),
      Scans ⟨(Position.start.afterAll first.toList).line + 1, 1⟩ more later →
      Scans .start (first.toList ++ '\n' :: more) (front ++ later)) (second : String) :
    (ofString (first ++ "\n" ++ second)).items =
      front ++ (ofString second).items.map (movedItem (Span.lowered (linesOf first))) := by
  have line : (Position.mk ((Position.start.afterAll first.toList).line + 1) 1) =
      Position.start.lowered (linesOf first) := by
    rw [Position.line_afterAll]
    simp only [Position.lowered, Position.start, linesOf, Nat.add_assoc]
  have joined := joins second.toList _ (line ▸ (Scans.ofString second).lowered (linesOf first))
  have text : (first ++ "\n" ++ second).toList = first.toList ++ '\n' :: second.toList := by
    simp [String.toList_append]
  rw [← text] at joined
  exact (Scans.ofString (first ++ "\n" ++ second)).unique joined

namespace Scan

theorem ofItems_cons_token (token : Token) (items : List Item) :
    ofItems (.ok token :: items) = ⟨token :: (ofItems items).tokens, (ofItems items).errors⟩ := rfl

theorem ofItems_cons_error (error : ScanError) (items : List Item) :
    ofItems (.error error :: items) = ⟨(ofItems items).tokens, error :: (ofItems items).errors⟩ :=
  rfl

theorem mem_tokens_ofItems {token : Token} {items : List Item} :
    token ∈ (ofItems items).tokens ↔ .ok token ∈ items := by
  simp only [ofItems, List.mem_filterMap]
  constructor
  · rintro ⟨item | found, member, same⟩
    · cases same
    · obtain rfl := Option.some.inj same
      exact member
  · exact fun member => ⟨_, member, rfl⟩

theorem mem_errors_ofItems {error : ScanError} {items : List Item} :
    error ∈ (ofItems items).errors ↔ .error error ∈ items := by
  simp only [ofItems, List.mem_filterMap]
  constructor
  · rintro ⟨found | token, member, same⟩
    · obtain rfl := Option.some.inj same
      exact member
    · cases same
  · exact fun member => ⟨_, member, rfl⟩

theorem ofItems_ok (tokens : List Token) : ofItems (tokens.map .ok) = ⟨tokens, []⟩ := by
  simp only [ofItems, List.filterMap_map, mk.injEq]
  refine ⟨?_, ?_⟩
  · exact List.filterMap_some
  · exact List.filterMap_eq_nil_iff.mpr fun _ _ => rfl

theorem ended_of_forall_errors {source : String}
    (ended : ∀ error ∈ (of source).errors, error.cause.isUnterminated = false) :
    Scans.Ended (Stream.ofString source).items := fun error member =>
  ended error (mem_errors_ofItems.mpr member)

/-- Items without errors are tokens. -/
theorem eq_map_ok_of_clean {items : List Item} (clean : (ofItems items).errors = []) :
    items = (ofItems items).tokens.map .ok := by
  induction items with
  | nil => rfl
  | cons item rest inductionHypothesis =>
      cases item with
      | error error => cases clean
      | ok token => exact congrArg (_ :: ·) (inductionHypothesis clean)

/-- A source without lexical errors is a sequence of tokens and an end mark. What stands
behind it and a line feed is scanned as a source of its own, further down. -/
theorem of_joined {first : String} (clean : (Scan.of first).errors = []) :
    ∃ front mark, (Scan.of first).tokens = front ++ [mark] ∧ mark.kind = .endOfSource ∧
      (∀ token ∈ front, token.kind.isEnd = false) ∧
      ∀ second : String, (Scan.of second).errors = [] →
        Scan.of (first ++ "\n" ++ second) =
          ⟨front ++ (Scan.of second).tokens.map (Token.moved (Span.lowered (linesOf first))), []⟩ := by
  have allTokens : (Stream.ofString first).items = (of first).tokens.map .ok :=
    eq_map_ok_of_clean clean
  have ended : Scans.Ended (Stream.ofString first).items := ended_of_forall_errors (by simp [clean])
  obtain ⟨front, mark, items, isMark, unmarked, joins⟩ :=
    (Scans.ofString first).append_line ended
  obtain ⟨frontTokens, marks, tokens, rfl, isLast⟩ :=
    List.map_eq_append_iff.mp (allTokens.symm.trans items)
  obtain ⟨last, rfl, same⟩ := List.map_eq_singleton_iff.mp isLast
  obtain rfl : mark = last := (Except.ok.inj same).symm
  refine ⟨frontTokens, mark, tokens, isMark, fun token member =>
    unmarked token (List.mem_map_of_mem member), fun second cleanSecond => ?_⟩
  have later : (Stream.ofString second).items.map (movedItem (Span.lowered (linesOf first))) =
      ((Scan.of second).tokens.map (Token.moved (Span.lowered (linesOf first)))).map .ok := by
    rw [eq_map_ok_of_clean cleanSecond, List.map_map, List.map_map]
    rfl
  rw [Scan.of, Stream.items_of_joins joins, later, ← List.map_append, ofItems_ok]

end Scan

/-- What is scanned in front of a line feed does not depend on what follows, if nothing is left
open there: the end mark apart, these are the items of the first source, odd characters among
them. They are followed by the items of the second source, its end mark among them, so many lines
further down as the first one and the line feed make, and otherwise as they are. -/
theorem Stream.items_joined (first second : String)
    (ended : ∀ error ∈ (Scan.of first).errors, error.cause.isUnterminated = false) :
    ∃ front mark, (ofString first).items = front ++ [.ok mark] ∧ mark.kind = .endOfSource ∧
      (∀ token, .ok token ∈ front → token.kind.isEnd = false) ∧
      (ofString (first ++ "\n" ++ second)).items =
        front ++ (ofString second).items.map (movedItem (Span.lowered (linesOf first))) := by
  obtain ⟨front, mark, items, isMark, unmarked, joins⟩ :=
    (Scans.ofString first).append_line (Scan.ended_of_forall_errors ended)
  exact ⟨front, mark, items, isMark, unmarked, items_of_joins joins second⟩

/-- A number before the line feed is not read on, nor is a word or an odd character, although the
second source is left open. -/
theorem Stream.items_joined_oddCharacter :
    (∀ error ∈ (Scan.of "/* \n */ @ 1.").errors, error.cause.isUnterminated = false) ∧
      ∃ front mark, (ofString "/* \n */ @ 1.").items = front ++ [.ok mark] ∧
        mark.kind = .endOfSource ∧ (∀ token, .ok token ∈ front → token.kind.isEnd = false) ∧
        (ofString ("/* \n */ @ 1." ++ "\n" ++ "5 \"open")).items =
          front ++ (ofString "5 \"open").items.map
            (movedItem (Span.lowered (linesOf "/* \n */ @ 1."))) := by
  have ended : ∀ error ∈ (Scan.of "/* \n */ @ 1.").errors, error.cause.isUnterminated = false := by
    decide +kernel
  exact ⟨ended, items_joined _ _ ended⟩

end Lox
