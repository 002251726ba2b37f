import Lox.Proofs.Number.Written
import Lox.Syntax.Printed

/-!
Contract: printed text is read in one way.

Printed trees are made of pieces: words, numbers, quoted texts, and lists of pieces in parentheses
with blanks between them. A legible piece shows where it ends: words and numbers contain no mark
that could follow them, and quoted texts no quote. So no piece is the beginning of another, and a
text that is made of pieces is made of these pieces only.

Main statements: `Piece.unique`, `lines_unique`.

Owns: pieces and their texts. Does not own: what pieces stand for.
-/

set_option autoImplicit false

namespace Lox.Printing

/-! ## Pieces -/

/-- A piece that is no list. -/
inductive Atom where
  | word (text : String)
  | number (value : Float)
  | quoted (text : String)

/-- What printed text is made of. -/
inductive Piece where
  | atom (atom : Atom)
  | list (parts : List Piece)

/-- How an atom is written. -/
def Atom.chars : Atom → List Char
  | .word text => text.toList
  | .number value => (Number.Layout.tree.text value).toList
  | .quoted text => '"' :: (text.toList ++ ['"'])

mutual

/-- How a piece is written. -/
def Piece.chars : Piece → List Char
  | .atom atom => atom.chars
  | .list parts => '(' :: ([' '].intercalate (charsOfPieces parts) ++ [')'])

/-- How pieces are written, each on its own. -/
def charsOfPieces : List Piece → List (List Char)
  | [] => []
  | piece :: rest => piece.chars :: charsOfPieces rest

end

/-- What no word and no number contains. -/
def marks : List Char := ['(', ')', '"', ' ', '\n']

/-- What follows a piece. -/
def delimiters : List Char := [')', ' ', '\n']

/-- The text begins with a digit, or with a sign in front of a digit. -/
def beginsNumber : List Char → Bool
  | '-' :: digit :: _ => digit.isDigit
  | first :: _ => first.isDigit
  | [] => false

/-- The text contains no mark and is no number. -/
def IsWord (text : String) : Prop :=
  text.toList ≠ [] ∧ (∀ character ∈ text.toList, character ∉ marks) ∧
    beginsNumber text.toList = false

instance (text : String) : Decidable (IsWord text) :=
  -- Only the characters of the text are tried, not all characters there are.
  letI := List.decidableBAll (· ∉ marks) text.toList
  inferInstanceAs (Decidable (_ ∧ _ ∧ _))

/-- The atom shows what it is and where it ends. -/
def Atom.Legible : Atom → Prop
  | .word text => IsWord text
  | .number value => value.isFinite = true
  | .quoted text => '"' ∉ text.toList

mutual

/-- All atoms of the piece are legible. -/
def Piece.Legible : Piece → Prop
  | .atom atom => atom.Legible
  | .list parts => legiblePieces parts

/-- All atoms of the pieces are legible. -/
def legiblePieces : List Piece → Prop
  | [] => True
  | piece :: rest => piece.Legible ∧ legiblePieces rest

end

/-- The text ends here, or something follows that no piece goes on with. -/
def Ends (after : List Char) : Prop := ∀ character ∈ after.head?, character ∈ delimiters

/-! ## Atoms -/

section Atoms

open Lexeme (Numeral)

theorem forall_numeral {text : List Char} (numeral : Numeral text) :
    ∀ character ∈ text, character.isDigit = true ∨ character = '.' := by
  cases numeral with
  | whole _ digital => exact fun character member => .inl (Lexeme.forall_isDigit digital _ member)
  | decimal _ digital _ digitalBehind =>
      intro character member
      simp only [List.mem_append, List.mem_cons] at member
      obtain before | rfl | behind := member
      · exact .inl (Lexeme.forall_isDigit digital _ before)
      · exact .inr rfl
      · exact .inl (Lexeme.forall_isDigit digitalBehind _ behind)

theorem beginsNumber_of_isDigit {first : Char} (digit : first.isDigit = true) (rest : List Char) :
    beginsNumber (first :: rest) = true := by
  unfold beginsNumber
  split
  · next same =>
      obtain rfl := (List.cons.inj same).1
      cases digit
  · next same =>
      obtain rfl := (List.cons.inj same).1
      exact digit
  · next same => cases same

/-- A finite number is written like a literal, with or without a sign. -/
theorem chars_number {value : Float} (finite : value.isFinite = true) :
    ∃ text, Numeral text ∧
      ((Atom.number value).chars = text ∨ (Atom.number value).chars = '-' :: text) := by
  refine ⟨_, Number.Layout.numeral_magnitudeText (.ofIndex (value.toBits.toNat % 2 ^ 63)), ?_⟩
  rw [Atom.chars, Number.Layout.text_of_finite finite]
  split
  · exact .inr (by simp)
  · exact .inl (by simp)

/-- Words and numbers contain no mark, and begin differently. -/
theorem solid_number {value : Float} (finite : value.isFinite = true) :
    (∀ character ∈ (Atom.number value).chars, character ∉ marks) ∧
      beginsNumber (Atom.number value).chars = true := by
  obtain ⟨text, numeral, same⟩ := chars_number finite
  have solid : ∀ character ∈ text, character ∉ marks := by
    intro character member
    obtain digit | rfl := forall_numeral numeral character member
    · exact Lexeme.notMem_of_test (by decide) digit
    · decide
  obtain ⟨first, rest, rfl, digit⟩ := numeral.exists_first
  obtain same | same := same
  · rw [same]
    exact ⟨solid, beginsNumber_of_isDigit digit rest⟩
  · rw [same]
    exact ⟨List.forall_mem_cons.mpr ⟨by decide, solid⟩, digit⟩

/-- What comes before the first mark is settled. -/
theorem append_inj_of_stops {test : Char → Bool} {first second after behind : List Char}
    (pass : ∀ character ∈ first, test character = true)
    (passToo : ∀ character ∈ second, test character = true)
    (stops : ∀ character ∈ after.head?, test character = false)
    (stopsToo : ∀ character ∈ behind.head?, test character = false)
    (same : first ++ after = second ++ behind) : first = second ∧ after = behind := by
  have alike := congrArg (List.takeWhile test) same
  rw [Lexeme.takeWhile_append_of_head pass stops,
    Lexeme.takeWhile_append_of_head passToo stopsToo] at alike
  exact ⟨alike, List.append_cancel_left (alike ▸ same)⟩

theorem Ends.notMem_marks {after : List Char} (ends : Ends after) :
    ∀ character ∈ after.head?, decide (character ∉ marks) = false := by
  intro character head
  have delimits := ends character head
  simp only [delimiters, List.mem_cons, List.not_mem_nil, or_false] at delimits
  obtain rfl | rfl | rfl := delimits <;> decide

/-- An atom that is not quoted, with what is known of its text. -/
theorem Atom.Legible.cases {atom : Atom} (legible : atom.Legible) :
    (∃ text, atom = .quoted text ∧ '"' ∉ text.toList) ∨
      (atom.chars ≠ [] ∧ ∀ character ∈ atom.chars, decide (character ∉ marks) = true) := by
  cases atom with
  | quoted text => exact .inl ⟨text, rfl, legible⟩
  | word text => exact .inr ⟨legible.1, fun _ member => decide_eq_true (legible.2.1 _ member)⟩
  | number value =>
      obtain ⟨solid, begins⟩ := solid_number legible
      refine .inr ⟨fun empty => ?_, fun _ member => decide_eq_true (solid _ member)⟩
      rw [empty] at begins
      cases begins

/-- An atom begins with neither a parenthesis nor a blank. -/
theorem Atom.Legible.exists_first {atom : Atom} (legible : atom.Legible) :
    ∃ first rest, atom.chars = first :: rest ∧ first ∉ '(' :: delimiters := by
  obtain ⟨text, rfl, _⟩ | ⟨nonempty, solid⟩ := legible.cases
  · exact ⟨'"', _, rfl, by decide⟩
  · obtain ⟨first, rest, same⟩ := List.exists_cons_of_ne_nil nonempty
    rw [same] at solid
    have outside := of_decide_eq_true (solid first List.mem_cons_self)
    refine ⟨first, rest, same, fun member => outside ?_⟩
    simp only [delimiters, marks, List.mem_cons, List.not_mem_nil, or_false] at member ⊢
    tauto

theorem Atom.eq_of_chars {first second : Atom} (legible : first.Legible)
    (legibleToo : second.Legible) (solid : '"' ∉ first.chars)
    (same : first.chars = second.chars) : first = second := by
  cases first with
  | quoted text => exact absurd List.mem_cons_self solid
  | word text =>
      cases second with
      | quoted other => exact absurd (same ▸ List.mem_cons_self) solid
      | word other => exact congrArg Atom.word (String.toList_inj.mp same)
      | number value =>
          have begins := (solid_number legibleToo).2
          rw [← same, Atom.chars, legible.2.2] at begins
          cases begins
  | number value =>
      cases second with
      | quoted other => exact absurd (same ▸ List.mem_cons_self) solid
      | word other =>
          have begins := (solid_number legible).2
          rw [same, Atom.chars, legibleToo.2.2] at begins
          cases begins
      | number other =>
          exact congrArg Atom.number
            (Number.Layout.text_injective legible legibleToo (String.toList_inj.mp same))

/-- No atom is the beginning of another. -/
theorem Atom.unique {first second : Atom} (legible : first.Legible) (legibleToo : second.Legible)
    {after behind : List Char} (ends : Ends after) (endsToo : Ends behind)
    (same : first.chars ++ after = second.chars ++ behind) : first = second ∧ after = behind := by
  have quoteLeads {text : String} {rest other : List Char}
      (solid : ∀ character ∈ other, decide (character ∉ marks) = true) (nonempty : other ≠ [])
      {more : List Char} (alike : (Atom.quoted text).chars ++ rest = other ++ more) : False := by
    obtain ⟨character, others, rfl⟩ := List.exists_cons_of_ne_nil nonempty
    obtain rfl : '"' = character := (List.cons.inj alike).1
    exact absurd (solid _ List.mem_cons_self) (by decide)
  obtain ⟨text, rfl, inside⟩ | ⟨nonempty, solid⟩ := legible.cases
  · obtain ⟨other, rfl, insideToo⟩ | ⟨nonemptyToo, solidToo⟩ := legibleToo.cases
    · have alike : text.toList ++ ('"' :: after) = other.toList ++ ('"' :: behind) := by
        simpa [Atom.chars] using same
      obtain ⟨texts, rests⟩ := @append_inj_of_stops (· ≠ '"') _ _ _ _
        (by simpa using Lexeme.forall_ne inside) (by simpa using Lexeme.forall_ne insideToo)
        (by simp) (by simp) alike
      exact ⟨congrArg Atom.quoted (String.toList_inj.mp texts), (List.cons.inj rests).2⟩
    · exact (quoteLeads solidToo nonemptyToo same).elim
  · obtain ⟨other, rfl, insideToo⟩ | ⟨nonemptyToo, solidToo⟩ := legibleToo.cases
    · exact (quoteLeads solid nonempty same.symm).elim
    · obtain ⟨texts, rests⟩ :=
        append_inj_of_stops solid solidToo ends.notMem_marks endsToo.notMem_marks same
      have noQuote : '"' ∉ first.chars := fun member => absurd (solid _ member) (by decide)
      exact ⟨Atom.eq_of_chars legible legibleToo noQuote texts, rests⟩

end Atoms

/-! ## Lists -/

theorem charsOfPieces_eq_map (pieces : List Piece) :
    charsOfPieces pieces = pieces.map Piece.chars := by
  induction pieces with
  | nil => rfl
  | cons piece rest inductionHypothesis => simp [charsOfPieces, inductionHypothesis]

theorem legiblePieces_iff {pieces : List Piece} :
    legiblePieces pieces ↔ ∀ piece ∈ pieces, piece.Legible := by
  induction pieces with
  | nil => simp [legiblePieces]
  | cons piece rest inductionHypothesis => simp [legiblePieces, inductionHypothesis]

/-- A piece begins with no delimiter. -/
theorem Piece.Legible.exists_first {piece : Piece} (legible : piece.Legible) :
    ∃ first rest, piece.chars = first :: rest ∧ first ∉ delimiters := by
  cases piece with
  | list parts => exact ⟨'(', _, by rw [Piece.chars], by decide⟩
  | atom atom =>
      rw [Piece.Legible] at legible
      obtain ⟨first, rest, same, outside⟩ := legible.exists_first
      exact ⟨first, rest, by rw [Piece.chars, same], fun member => outside (.tail _ member)⟩

/-- The piece is no beginning of another one. -/
def Piece.Unique (piece : Piece) : Prop :=
  ∀ other : Piece, other.Legible → ∀ after behind, Ends after → Ends behind →
    piece.chars ++ after = other.chars ++ behind → piece = other ∧ after = behind

/-- What is joined behind the first of several texts. -/
theorem intercalate_cons (separator : Char) (first : List Char) (rest : List (List Char)) :
    [separator].intercalate (first :: rest) =
      first ++ if rest = [] then [] else separator :: [separator].intercalate rest := by
  cases rest <;> simp

/-- Pieces that are joined by a delimiter are told apart if each of them is no beginning of
another, up to something that the delimiter does not begin. -/
theorem joined_unique {separator : Char} (delimits : separator ∈ delimiters)
    {pieces others : List Piece} (unique : ∀ piece ∈ pieces, piece.Unique)
    (legible : ∀ piece ∈ pieces, piece.Legible) (legibleToo : ∀ other ∈ others, other.Legible)
    {after behind : List Char} (ends : Ends after) (endsToo : Ends behind)
    (stops : after.head? ≠ some separator) (stopsToo : behind.head? ≠ some separator)
    (same : [separator].intercalate (pieces.map Piece.chars) ++ after =
      [separator].intercalate (others.map Piece.chars) ++ behind) :
    pieces = others ∧ after = behind := by
  have begins {piece : Piece} (legible : piece.Legible) {more rest : List Char} (ends : Ends rest) :
      rest ≠ piece.chars ++ more := by
    obtain ⟨first, _, chars, outside⟩ := legible.exists_first
    rw [chars]
    rintro rfl
    exact outside (ends first rfl)
  have endsBehind {rest : List (List Char)} {more : List Char} (ends : Ends more) :
      Ends ((if rest = [] then [] else separator :: [separator].intercalate rest) ++ more) := by
    split
    · exact ends
    · intro character head
      obtain rfl := Option.some.inj head
      exact delimits
  induction pieces generalizing others with
  | nil =>
      cases others with
      | nil => exact ⟨rfl, same⟩
      | cons other rest =>
          rw [List.map_cons, intercalate_cons, List.append_assoc] at same
          exact absurd same (begins (legibleToo other List.mem_cons_self) ends)
  | cons piece pieces inductionHypothesis =>
      cases others with
      | nil =>
          rw [List.map_cons, intercalate_cons, List.append_assoc] at same
          exact absurd same.symm (begins (legible piece List.mem_cons_self) endsToo)
      | cons other others =>
          rw [List.map_cons, List.map_cons, intercalate_cons, intercalate_cons, List.append_assoc,
            List.append_assoc] at same
          obtain ⟨rfl, rests⟩ := unique piece List.mem_cons_self other
            (legibleToo other List.mem_cons_self) _ _ (endsBehind ends) (endsBehind endsToo) same
          simp only [List.map_eq_nil_iff] at rests
          split at rests
          · next none =>
              subst none
              split at rests
              · next noneToo => exact ⟨by rw [noneToo], rests⟩
              · exact absurd (congrArg List.head? rests) stops
          · split at rests
            · exact absurd (congrArg List.head? rests.symm) stopsToo
            · obtain ⟨alike, same⟩ := inductionHypothesis
                (fun piece member => unique piece (.tail _ member))
                (fun piece member => legible piece (.tail _ member))
                (fun other member => legibleToo other (.tail _ member)) (List.cons.inj rests).2
              exact ⟨congrArg (List.cons piece) alike, same⟩

/-- No piece is the beginning of another. -/
theorem Piece.unique : (piece : Piece) → piece.Legible → piece.Unique
  | .atom leaf, legible => by
      intro other legibleToo after behind ends endsToo same
      rw [Piece.Legible] at legible
      cases other with
      | atom other =>
          rw [Piece.Legible] at legibleToo
          rw [Piece.chars, Piece.chars] at same
          obtain ⟨rfl, rests⟩ := Atom.unique legible legibleToo ends endsToo same
          exact ⟨rfl, rests⟩
      | list parts =>
          obtain ⟨first, _, begins, outside⟩ := legible.exists_first
          rw [Piece.chars, begins, Piece.chars] at same
          obtain rfl : first = '(' := (List.cons.inj same).1
          exact absurd List.mem_cons_self outside
  | .list parts, legible => by
      intro other legibleToo after behind ends endsToo same
      rw [Piece.Legible, legiblePieces_iff] at legible
      cases other with
      | atom other =>
          rw [Piece.Legible] at legibleToo
          obtain ⟨first, _, begins, outside⟩ := legibleToo.exists_first
          rw [Piece.chars, begins, Piece.chars] at same
          obtain rfl : '(' = first := (List.cons.inj same).1
          exact absurd List.mem_cons_self outside
      | list others =>
          rw [Piece.Legible, legiblePieces_iff] at legibleToo
          rw [Piece.chars, Piece.chars, charsOfPieces_eq_map, charsOfPieces_eq_map] at same
          simp only [List.cons_append, List.append_assoc, List.cons.injEq, true_and] at same
          have closes (more : List Char) : Ends (')' :: more) := by
            intro character head
            obtain rfl := Option.some.inj head
            decide
          obtain ⟨rfl, rests⟩ := joined_unique (by decide)
            (fun part member => part.unique (legible part member)) legible legibleToo
            (closes after) (closes behind) (by simp) (by simp) same
          exact ⟨rfl, (List.cons.inj rests).2⟩

/-- Lines that are pieces are told apart by their text. -/
theorem lines_unique {pieces others : List Piece} (legible : ∀ piece ∈ pieces, piece.Legible)
    (legibleToo : ∀ other ∈ others, other.Legible)
    (same : ['\n'].intercalate (pieces.map Piece.chars) =
      ['\n'].intercalate (others.map Piece.chars)) : pieces = others := by
  have ends : Ends [] := nofun
  have newline : '\n' ∈ delimiters := by decide
  exact (joined_unique newline (fun piece member => piece.unique (legible piece member)) legible
    legibleToo ends ends nofun nofun (by simpa using same)).1

end Lox.Printing
