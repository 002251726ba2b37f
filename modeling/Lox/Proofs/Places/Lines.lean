import Mathlib.Data.List.Basic
import Lox.Diagnostic.Excerpt
import Lox.Proofs.Lexeme.Covered
import Lox.Proofs.Places.Scanning

/-!
Contract: positions, and the lines of a text.

Positions are counted while a text is read, and its lines are cut out of it when something
is shown. The two agree: behind a text the line is the one that the last line feed began, and
the column says how much of it there is. A carriage return ends a line only together with
the line feed behind it; elsewhere it is one character for both.

Main statement: `sourceLine_of_stands`.

Owns: stretches of a source and the line they are in. Does not own: which stretches.
-/

set_option autoImplicit false

namespace Lox

/-! ## Lines of a text -/

namespace Text

/-- A carriage return right before a line feed is no part of a line. -/
theorem linesFrom_return (begun rest : List Char) :
    linesFrom begun ('\r' :: '\n' :: rest) = linesFrom begun ('\n' :: rest) := rfl

theorem linesFrom_cons {begun rest : List Char} {character : Char} (notFeed : character ≠ '\n')
    (notReturn : character = '\r' → ∀ others, rest ≠ '\n' :: others) :
    linesFrom begun (character :: rest) = linesFrom (character :: begun) rest := by
  rw [linesFrom]
  · exact fun others same => notReturn same others
  · exact notFeed

/-- The lines up to a line feed, and those behind it. -/
theorem linesFrom_append_feed (begun text rest : List Char) :
    ∃ above, linesFrom begun (text ++ '\n' :: rest) = above ++ linesFrom [] rest ∧
      above.length = text.count '\n' + 1 := by
  induction text generalizing begun with
  | nil => exact ⟨[String.ofList begun.reverse], rfl, rfl⟩
  | cons character others inductionHypothesis =>
      by_cases feed : character = '\n'
      · subst feed
        obtain ⟨above, lines, number⟩ := inductionHypothesis []
        refine ⟨String.ofList begun.reverse :: above, congrArg (_ :: ·) lines, ?_⟩
        rw [List.length_cons, number, List.count_cons_self]
      · rw [List.count_cons_of_ne feed, List.cons_append]
        by_cases joins : character = '\r' ∧ ∃ tail, others ++ '\n' :: rest = '\n' :: tail
        · obtain ⟨rfl, tail, starts⟩ := joins
          rw [starts, linesFrom_return, ← starts]
          exact inductionHypothesis begun
        · rw [linesFrom_cons feed fun isReturn tail starts => joins ⟨isReturn, tail, starts⟩]
          exact inductionHypothesis (character :: begun)

/-- The line ends before this text, or with the source. -/
def EndsBefore (line below : List Char) : Prop :=
  below = [] ∨ (∃ rest, below = '\n' :: rest ∧ line.getLast? ≠ some '\r') ∨
    ∃ rest, below = '\r' :: '\n' :: rest

/-- The first line, up to where it ends. -/
theorem head_linesFrom (begun : List Char) {line below : List Char} (within : '\n' ∉ line)
    (ends : EndsBefore line below) :
    ((linesFrom begun (line ++ below))[0]?).getD "" = String.ofList (begun.reverse ++ line) := by
  induction line generalizing begun with
  | nil =>
      obtain rfl | ⟨rest, rfl, _⟩ | ⟨rest, rfl⟩ := ends
      · cases begun <;> simp [linesFrom]
      · simp [linesFrom]
      · simp [linesFrom]
  | cons character others inductionHypothesis =>
      simp only [List.mem_cons, not_or] at within
      obtain ⟨notFeed, withinOthers⟩ := within
      have notReturn : character = '\r' → ∀ tail, others ++ below ≠ '\n' :: tail := by
        rintro rfl tail starts
        cases others with
        | nil =>
            obtain rfl | ⟨rest, rfl, noReturn⟩ | ⟨rest, rfl⟩ := ends
            · cases starts
            · exact noReturn rfl
            · cases starts
        | cons second more =>
            obtain ⟨rfl, _⟩ := List.cons.inj starts
            exact withinOthers List.mem_cons_self
      have endsOthers : EndsBefore others below := by
        refine ends.imp_right (Or.imp_left ?_)
        rintro ⟨rest, same, noReturn⟩
        refine ⟨rest, same, fun last => noReturn ?_⟩
        rw [List.getLast?_cons, last]
        rfl
      rw [List.cons_append, linesFrom_cons (Ne.symm notFeed) notReturn,
        inductionHypothesis (character :: begun) withinOthers endsOthers]
      simp

/-- Every text has a line that it ends in, and lines above it. -/
theorem exists_lineStart (text : List Char) :
    ∃ above front, text = above ++ front ∧ '\n' ∉ front ∧
      (above = [] ∨ ∃ lines, above = lines ++ ['\n']) := by
  induction text with
  | nil => exact ⟨[], [], rfl, by simp, .inl rfl⟩
  | cons character others inductionHypothesis =>
      obtain ⟨above, front, rfl, within, rfl | ⟨lines, rfl⟩⟩ := inductionHypothesis
      · by_cases feed : character = '\n'
        · exact ⟨['\n'], front, by rw [feed]; rfl, within, .inr ⟨[], rfl⟩⟩
        · exact ⟨[], character :: front, rfl, by simp [within, Ne.symm feed], .inl rfl⟩
      · exact ⟨character :: (lines ++ ['\n']), front, rfl, within, .inr ⟨character :: lines, rfl⟩⟩

/-- Every text has a line that it begins in, and what is below it. -/
theorem exists_lineEnd (text : List Char) :
    ∃ back below, text = back ++ below ∧ '\n' ∉ back ∧ EndsBefore back below := by
  induction text with
  | nil => exact ⟨[], [], rfl, by simp, .inl rfl⟩
  | cons character others inductionHypothesis =>
      by_cases feed : character = '\n'
      · exact ⟨[], character :: others, rfl, by simp, .inr (.inl ⟨others, by rw [feed], by simp⟩)⟩
      · by_cases joins : character = '\r' ∧ ∃ tail, others = '\n' :: tail
        · obtain ⟨rfl, tail, rfl⟩ := joins
          exact ⟨[], _, rfl, by simp, .inr (.inr ⟨tail, rfl⟩)⟩
        · obtain ⟨back, below, rfl, within, ends⟩ := inductionHypothesis
          refine ⟨character :: back, below, rfl, by simp [within, Ne.symm feed], ?_⟩
          refine ends.imp_right (Or.imp_left ?_)
          rintro ⟨rest, rfl, noReturn⟩
          refine ⟨rest, rfl, fun last => ?_⟩
          cases back with
          | nil => exact joins ⟨Option.some.inj last, rest, rfl⟩
          | cons second more => exact noReturn (by rwa [List.getLast?_cons_cons] at last)

end Text

/-! ## Positions -/

/-- Within a line a position moves to the right. -/
theorem Position.afterAll_of_line (position : Position) {front : List Char} (within : '\n' ∉ front) :
    position.afterAll front = ⟨position.line, position.column + front.length⟩ := by
  induction front generalizing position with
  | nil => rfl
  | cons character others inductionHypothesis =>
      simp only [List.mem_cons, not_or] at within
      obtain ⟨notFeed, withinOthers⟩ := within
      rw [Position.afterAll_cons, inductionHypothesis _ withinOthers]
      simp [Position.after, Ne.symm notFeed]
      omega

/-- Behind whole lines and the beginning of another one, the position counts both. -/
theorem Position.afterAll_start {above front : List Char} (within : '\n' ∉ front)
    (whole : above = [] ∨ ∃ lines, above = lines ++ ['\n']) :
    Position.start.afterAll (above ++ front) = ⟨above.count '\n' + 1, front.length + 1⟩ := by
  have reached : Position.start.afterAll above = ⟨above.count '\n' + 1, 1⟩ := by
    obtain rfl | ⟨lines, rfl⟩ := whole
    · rfl
    · have line : (Position.start.afterAll lines).line = 1 + lines.count '\n' :=
        Position.line_afterAll Position.start lines
      rw [Position.afterAll_append, Position.afterAll_cons, Position.afterAll_nil]
      simp [Position.after, line]
      omega
  rw [Position.afterAll_append, reached, Position.afterAll_of_line _ within]
  simp
  omega

/-! ## Spans -/

/-- Where a span stands in a source: under whole lines, and in a line that has this in front
of the span, this under it and this behind it. -/
structure Span.Stands (source : String) (span : Span) (above front covered back below : List Char) :
    Prop where
  text : source.toList = above ++ ((front ++ covered ++ back) ++ below)
  whole : above = [] ∨ ∃ lines, above = lines ++ ['\n']
  line : '\n' ∉ front ++ covered ++ back
  ends : Text.EndsBefore (front ++ covered ++ back) below
  place : span = ⟨above.count '\n' + 1, front.length + 1, covered.length⟩

section Stands

variable {source : String} {span : Span} {above front covered back below : List Char}

/-- The line that is shown is the line that the span stands in. -/
theorem sourceLine_of_stands (stands : span.Stands source above front covered back below) :
    sourceLine source span.line = String.ofList (front ++ covered ++ back) := by
  have head := Text.head_linesFrom [] stands.line stands.ends
  rw [stands.place, sourceLine, Text.lines, stands.text, Nat.add_sub_cancel]
  obtain rfl | ⟨lines, rfl⟩ := stands.whole
  · exact head
  · obtain ⟨former, same, number⟩ := Text.linesFrom_append_feed [] lines
      ((front ++ covered ++ back) ++ below)
    have count : (lines ++ ['\n']).count '\n' = former.length := by simp [number]
    rw [List.append_assoc, List.singleton_append, same, count, List.getElem?_append_right
      (Nat.le_refl _), Nat.sub_self]
    exact head

/-- The padding is as long as what is in front of the span, with its tabs. -/
theorem underlinePadding_of_stands (stands : span.Stands source above front covered back below) :
    underlinePadding (sourceLine source span.line) span.column =
      String.ofList (front.map fun character => if character = '\t' then '\t' else ' ') := by
  rw [sourceLine_of_stands stands, stands.place]
  simp [underlinePadding]

end Stands

/-- What is in one line of a source stands there. -/
theorem exists_stands {source : String} {before covered behind : List Char}
    (text : source.toList = before ++ (covered ++ behind))
    (unbroken : ∀ character ∈ covered, character ∉ Lexeme.breaks)
    (last : covered = [] → behind = []) :
    ∃ above front back below, before = above ++ front ∧ behind = back ++ below ∧
      ((Position.start.afterAll before).span covered.length).Stands source above front covered
        back below := by
  obtain ⟨above, front, rfl, frontWithin, whole⟩ := Text.exists_lineStart before
  obtain ⟨back, below, rfl, backWithin, ends⟩ := Text.exists_lineEnd behind
  refine ⟨above, front, back, below, rfl, rfl, ?_⟩
  exact {
    text := by simp [text]
    whole := whole
    line := by
      have coveredWithin : '\n' ∉ covered := fun member =>
        unbroken '\n' member (by decide)
      simp [frontWithin, coveredWithin, backWithin]
    ends := by
      refine ends.imp_right (Or.imp_left ?_)
      rintro ⟨rest, rfl, noReturn⟩
      refine ⟨rest, rfl, fun lastReturn => ?_⟩
      -- The last character of the line is behind the span, or the last one under it.
      cases back with
      | cons second more =>
          rw [List.getLast?_append_of_ne_nil _ (List.cons_ne_nil second more)] at lastReturn
          exact noReturn lastReturn
      | nil =>
          have some : covered ≠ [] := fun none => nomatch last none
          rw [List.append_nil, List.getLast?_append_of_ne_nil _ some] at lastReturn
          exact unbroken '\r' (List.mem_of_getLast? lastReturn) (by decide)
    place := by
      rw [Position.afterAll_start frontWithin whole]
      rfl }

end Lox
