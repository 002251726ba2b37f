import Lox.Lexeme

/-!
Contract: how much of a source a lexeme takes.

Main statement: `Lexeme.extent_le`, a lexeme takes no more characters than there
are. Its parts say the same of each sort of lexeme.
-/

namespace Lox.Lexeme

theorem length_takeWhile_le (test : Char → Bool) (characters : List Char) :
    (characters.takeWhile test).length ≤ characters.length :=
  (List.takeWhile_sublist test).length_le

theorem blockCommentEnd_le {depth taken finish : Nat} {body : List Char}
    (closed : blockCommentEnd depth taken body = some finish) :
    finish ≤ taken + body.length := by
  fun_induction blockCommentEnd depth taken body with
  | case1 depth taken rest shallow =>
      simp only [Option.some.injEq] at closed
      simp only [List.length_cons]
      omega
  | case2 depth taken rest deep inductionHypothesis =>
      have bound := inductionHypothesis closed
      simp only [List.length_cons]
      omega
  | case3 depth taken rest inductionHypothesis =>
      have bound := inductionHypothesis closed
      simp only [List.length_cons]
      omega
  | case4 depth taken head rest _ _ inductionHypothesis =>
      have bound := inductionHypothesis closed
      simp only [List.length_cons]
      omega
  | case5 => simp at closed

theorem extent_lineComment_le (body : List Char) : (lineComment body).extent ≤ body.length + 1 := by
  have bound := length_takeWhile_le (· ≠ '\n') body
  simp only [lineComment, plain]
  omega

theorem extent_blockComment_le (body : List Char) :
    (blockComment body).extent ≤ body.length + 1 := by
  unfold blockComment
  split
  · next closed =>
      have bound := blockCommentEnd_le closed
      simp only
      omega
  · exact Nat.le_refl _

theorem extent_quotation_le (body : List Char) : (quotation body).extent ≤ body.length := by
  unfold quotation
  simp only
  split
  · next inside => exact inside
  · exact Nat.le_refl _

theorem length_fractionDigits_lt {characters : List Char}
    (present : (fractionDigits characters).isEmpty = false) :
    (fractionDigits characters).length < characters.length := by
  unfold fractionDigits at present ⊢
  split
  · next rest =>
      have bound := length_takeWhile_le Char.isDigit rest
      simp only [List.length_cons]
      omega
  · simp at present

theorem extent_numeral_le (first : Char) (rest : List Char) :
    (numeral first rest).extent ≤ rest.length := by
  have wholeBound := length_takeWhile_le Char.isDigit rest
  simp only [numeral, plain]
  split
  · exact wholeBound
  · next present =>
      have fractionBound := length_fractionDigits_lt (Bool.eq_false_iff.mpr present)
      rw [List.length_drop] at fractionBound
      omega

theorem extent_word_le (first : Char) (rest : List Char) :
    (word first rest).extent ≤ rest.length := by
  unfold word
  simp only
  split <;> exact length_takeWhile_le isWordCharacter rest

theorem extent_withEqual_le (alone joined : Symbol) (rest : List Char) :
    (withEqual alone joined rest).extent ≤ rest.length := by
  unfold withEqual
  split <;> simp [plain, single]

/-- A lexeme takes no more than there is. -/
theorem extent_le (first : Char) (rest : List Char) :
    («at» first rest).extent ≤ rest.length := by
  unfold «at»
  split
  all_goals first
    | exact Nat.zero_le _
    | exact extent_withEqual_le _ _ rest
    | exact extent_quotation_le rest
    | skip
  · split
    · exact extent_lineComment_le _
    · exact extent_blockComment_le _
    · exact Nat.zero_le _
  · split
    · exact extent_numeral_le _ rest
    · split
      · exact extent_word_le _ rest
      · exact Nat.zero_le _

end Lox.Lexeme
