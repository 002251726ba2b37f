import Mathlib.Data.List.TakeWhile
import Lox.Lexeme.Extent

/-!
Contract: which characters lexemes are made of.

A number is made of digits and a point, a word of letters, digits and underscores, and a
symbol is as it is written. Comments, strings and what lacks its end may go over several
lines. But the characters that a span covers, of whatever is not a comment, are in one line.

Main statement: `Lexeme.inLine_at`.

Owns: characters of numbers and words, characters under spans. Does not own: how many
characters there are.
-/

set_option autoImplicit false

namespace Lox.Lexeme

/-- The first stretch is the beginning of its length. -/
theorem take_length_takeWhile (test : Char → Bool) (characters : List Char) :
    characters.take (characters.takeWhile test).length = characters.takeWhile test :=
  (List.prefix_iff_eq_take.mp (List.takeWhile_prefix test)).symm

section Stretch

variable {test : Char → Bool} {stretch more : List Char}

/-- A stretch that the rest does not prolong is the first one. -/
theorem takeWhile_append_of_head (pass : ∀ character ∈ stretch, test character = true)
    (stops : ∀ character ∈ more.head?, test character = false) :
    (stretch ++ more).takeWhile test = stretch := by
  rw [List.takeWhile_append_of_pos pass]
  cases more with
  | nil => simp
  | cons character rest => simp [stops character rfl]

theorem dropWhile_append_of_head (pass : ∀ character ∈ stretch, test character = true)
    (stops : ∀ character ∈ more.head?, test character = false) :
    (stretch ++ more).dropWhile test = more := by
  rw [List.dropWhile_append_of_pos pass]
  cases more with
  | nil => rfl
  | cons character rest => simp [stops character rfl]

/-- What follows the first stretch does not prolong it. -/
theorem stops_dropWhile (test : Char → Bool) (characters : List Char) :
    ∀ character ∈ (characters.dropWhile test).head?, test character = false := by
  intro character head
  have stops := List.head?_dropWhile_not test characters
  rwa [Option.mem_def.mp head] at stops

/-- The first stretch is no shorter than one that it begins with. -/
theorem length_le_takeWhile (pass : ∀ character ∈ stretch, test character = true) (more : List Char) :
    stretch.length ≤ ((stretch ++ more).takeWhile test).length := by
  rw [List.takeWhile_append_of_pos pass, List.length_append]
  exact Nat.le_add_right _ _

end Stretch

/-- A fraction stands behind its point. -/
theorem eq_point_of_fractionDigits {characters : List Char}
    (present : (fractionDigits characters).isEmpty = false) :
    characters.take (1 + (fractionDigits characters).length) =
      '.' :: fractionDigits characters := by
  unfold fractionDigits at present ⊢
  split
  · next rest => rw [Nat.add_comm, List.take_succ_cons, take_length_takeWhile]
  · simp at present

theorem forall_fractionDigits (characters : List Char) :
    ∀ character ∈ fractionDigits characters, character.isDigit = true := by
  unfold fractionDigits
  split
  · intro character member
    exact List.mem_takeWhile_imp member
  · nofun

/-- A number is made of digits and a point. -/
theorem forall_numeral (first : Char) (rest : List Char) :
    ∀ character ∈ rest.take (numeral first rest).extent,
      character.isDigit = true ∨ character = '.' := by
  intro character member
  simp only [numeral, plain] at member
  split at member
  · rw [take_length_takeWhile] at member
    exact .inl (List.mem_takeWhile_imp member)
  · next present =>
      rw [Nat.add_assoc, List.take_add, take_length_takeWhile,
        eq_point_of_fractionDigits (Bool.eq_false_iff.mpr present), List.mem_append,
        List.mem_cons] at member
      obtain whole | rfl | fraction := member
      · exact .inl (List.mem_takeWhile_imp whole)
      · exact .inr rfl
      · exact .inl (forall_fractionDigits _ character fraction)

theorem extent_word (first : Char) (rest : List Char) :
    (word first rest).extent = (rest.takeWhile isWordCharacter).length := by
  unfold word
  simp only
  split <;> rfl

/-- A word is made of letters, digits and underscores. -/
theorem forall_word (first : Char) (rest : List Char) :
    ∀ character ∈ rest.take (word first rest).extent, isWordCharacter character = true := by
  rw [extent_word, take_length_takeWhile]
  exact fun character member => List.mem_takeWhile_imp member

/-- What passes a test is none of the characters that fail it. -/
theorem notMem_of_test {test : Char → Bool} {character : Char} {excluded : List Char}
    (fail : excluded.any test = false) (passes : test character = true) :
    character ∉ excluded := fun member =>
  List.any_eq_false.mp fail character member passes

/-! ## Spans in one line -/

/-- The characters that end a line. -/
def breaks : List Char := ['\n', '\r']

/-- The text begins with characters that the span of the lexeme covers, at least one, and
they are in one line. -/
structure InLine (text : List Char) (lexeme : Lexeme) : Prop where
  marked_pos : 0 < lexeme.marked
  marked_le : lexeme.marked ≤ lexeme.extent + 1
  unbroken : ∀ character ∈ text.take lexeme.marked, character ∉ breaks

section InLine

variable {first : Char} {rest : List Char}

theorem inLine_first {lexeme : Lexeme} (solid : first ∉ breaks) (one : lexeme.marked = 1) :
    InLine (first :: rest) lexeme where
  marked_pos := by omega
  marked_le := by omega
  unbroken := by simpa [one] using solid

theorem inLine_plain {kind : Token.Kind} {extent : Nat} (solid : first ∉ breaks)
    (solidRest : ∀ character ∈ rest.take extent, character ∉ breaks) :
    InLine (first :: rest) (plain kind extent) where
  marked_pos := Nat.succ_pos extent
  marked_le := Nat.le_refl _
  unbroken := by
    simp only [plain, List.take_succ_cons, List.forall_mem_cons]
    exact ⟨solid, solidRest⟩

theorem inLine_withEqual (solid : first ∉ breaks) (alone joined : Symbol) :
    InLine (first :: rest) (withEqual alone joined rest) := by
  unfold withEqual
  split
  · exact inLine_plain solid (by simp [breaks])
  · exact inLine_first solid rfl

theorem inLine_numeral (solid : first ∉ breaks) : InLine (first :: rest) (numeral first rest) := by
  refine inLine_plain solid fun character member => ?_
  obtain digit | rfl := forall_numeral first rest character member
  · exact notMem_of_test rfl digit
  · decide

theorem inLine_word (solid : first ∉ breaks) : InLine (first :: rest) (word first rest) := by
  have letters := forall_word first rest
  unfold word at letters ⊢
  simp only at letters ⊢
  split
  all_goals
    next found =>
      rw [found] at letters
      exact inLine_plain solid fun character member =>
        notMem_of_test rfl (letters character member)

/-- The span of a lexeme that is no comment covers characters of one line. -/
theorem inLine_at (notBlank : isSpace first = false)
    (notComment : («at» first rest).outcome ≠ .ok .comment) :
    InLine (first :: rest) («at» first rest) := by
  have solid : first ∉ breaks := fun member => by
    have blank : isSpace first = true := by
      simp only [breaks, List.mem_cons, List.not_mem_nil, or_false] at member
      obtain rfl | rfl := member <;> decide
    rw [notBlank] at blank
    cases blank
  unfold «at» at notComment ⊢
  split
  all_goals first
    | exact inLine_first solid rfl
    | exact inLine_withEqual solid _ _
    | skip
  · split
    · exact absurd rfl notComment
    · next body =>
        simp only [blockComment] at notComment ⊢
        split
        · next closed =>
            rw [closed] at notComment
            exact absurd rfl notComment
        · exact ⟨Nat.two_pos, by simp, by simp [breaks]⟩
    · exact inLine_first solid rfl
  · unfold quotation
    simp only
    split <;> exact inLine_first solid rfl
  · split
    · exact inLine_numeral solid
    · split
      · exact inLine_word solid
      · exact inLine_first solid rfl

end InLine

end Lox.Lexeme
