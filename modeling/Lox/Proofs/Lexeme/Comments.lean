import Mathlib.Tactic.ByContra
import Lox.Proofs.Lexeme.Grammar

/-!
Contract: where block comments end.

The marks of a comment are counted while it is read, and it ends where as many of them close it as
open it. Whatever is behind that place does not matter. So a block comment is found exactly if one
begins there, and it is the only one.

Main statements: `Lexeme.blockComment_of_leadsOut`, `Lexeme.blockComment_cases`.

Owns: marks and their count. Does not own: comments to the end of a line.
-/

set_option autoImplicit false

namespace Lox.Lexeme

@[simp] theorem openings_nil : openings [] = 0 := rfl

@[simp] theorem closings_nil : closings [] = 0 := rfl

@[simp] theorem openings_opening (rest : List Char) :
    openings ('/' :: '*' :: rest) = openings rest + 1 := by
  simp [openings, marks]

@[simp] theorem closings_opening (rest : List Char) :
    closings ('/' :: '*' :: rest) = closings rest := by
  simp [closings, marks]

@[simp] theorem openings_closing (rest : List Char) :
    openings ('*' :: '/' :: rest) = openings rest := by
  simp [openings, marks]

@[simp] theorem closings_closing (rest : List Char) :
    closings ('*' :: '/' :: rest) = closings rest + 1 := by
  simp [closings, marks]

theorem marks_cons {first : Char} {rest : List Char}
    (notClosing : ∀ others, first = '*' → rest = '/' :: others → False)
    (notOpening : ∀ others, first = '/' → rest = '*' :: others → False) :
    marks (first :: rest) = marks rest := by
  rw [marks]
  · exact notOpening
  · exact notClosing

/-- A text that leads out of so many comments at its end, and not before. -/
structure LeadsOut (depth : Nat) (inside : List Char) : Prop where
  out : closings inside = depth + openings inside
  first : ∀ shorter, shorter <+: inside → shorter ≠ inside →
    closings shorter < depth + openings shorter

/-- Where a text leads out of so many comments, counted from a place that is so many characters
in front of it; if nowhere, it stays inside. -/
def OutAt (depth taken : Nat) (text : List Char) : Option Nat → Prop
  | some finish => ∃ inside, inside <+: text ∧ finish = taken + inside.length ∧ LeadsOut depth inside
  | none => ∀ inside, inside <+: text → closings inside < depth + openings inside

theorem prefix_append_cases {text stretch rest : List Char} (begins : text <+: stretch ++ rest) :
    (text <+: stretch ∧ text ≠ stretch) ∨ ∃ more, text = stretch ++ more ∧ more <+: rest := by
  rcases List.prefix_or_prefix_of_prefix begins (List.prefix_append stretch rest) with within | ⟨more, rfl⟩
  · by_cases all : text = stretch
    · exact .inr ⟨[], by rw [all, List.append_nil], List.nil_prefix⟩
    · exact .inl ⟨within, all⟩
  · exact .inr ⟨more, rfl, (List.prefix_append_right_inj stretch).mp begins⟩

/-- A stretch of text that stays inside leads on to the text behind it. -/
theorem OutAt.prepend {depth deeper taken : Nat} {text : List Char} {place : Option Nat}
    (stretch : List Char)
    (stays : ∀ shorter, shorter <+: stretch → shorter ≠ stretch →
      closings shorter < depth + openings shorter)
    (leads : ∀ inside, inside <+: text →
      closings (stretch ++ inside) + (deeper + openings inside) =
        depth + openings (stretch ++ inside) + closings inside)
    (behind : OutAt deeper (taken + stretch.length) text place) :
    OutAt depth taken (stretch ++ text) place := by
  cases place with
  | some finish =>
      obtain ⟨inside, begins, rfl, leadsOut⟩ := behind
      have out := leadsOut.out
      have shift := leads inside begins
      refine ⟨stretch ++ inside, (List.prefix_append_right_inj stretch).mpr begins, ?_, ?_, ?_⟩
      · rw [List.length_append, Nat.add_assoc]
      · omega
      · intro shorter within proper
        obtain ⟨early, notAll⟩ | ⟨more, rfl, later⟩ := prefix_append_cases within
        · exact stays shorter early notAll
        · have still := leadsOut.first more later fun same => proper (congrArg _ same)
          have shift := leads more (later.trans begins)
          omega
  | none =>
      intro inside begins
      obtain ⟨early, notAll⟩ | ⟨more, rfl, later⟩ := prefix_append_cases begins
      · exact stays inside early notAll
      · have still := behind more later
        have shift := leads more later
        omega

/-- Every beginning of a mark but itself has no mark. -/
theorem stays_of_mark {depth : Nat} (deep : 0 < depth) {first second : Char} (shorter : List Char)
    (within : shorter <+: [first, second]) (proper : shorter ≠ [first, second]) :
    closings shorter < depth + openings shorter := by
  obtain rfl | ⟨tail, rfl, tailWithin⟩ := List.prefix_cons_iff.mp within
  · simpa using deep
  · obtain rfl | ⟨others, rfl, othersWithin⟩ := List.prefix_cons_iff.mp tailWithin
    · have none : marks [first] = [] := marks_cons (fun _ _ => nofun) (fun _ _ => nofun)
      simpa [closings, openings, none] using deep
    · obtain rfl := List.prefix_nil.mp othersWithin
      exact absurd rfl proper

/-- A block comment ends where its marks first balance. -/
theorem outAt_blockCommentEnd {depth : Nat} (deep : 0 < depth) (taken : Nat) (text : List Char) :
    OutAt depth taken text (blockCommentEnd depth taken text) := by
  fun_induction blockCommentEnd depth taken text with
  | case1 depth taken rest shallow =>
      refine ⟨['*', '/'], List.prefix_append ['*', '/'] rest, rfl, ?_, stays_of_mark deep⟩
      simp only [closings_closing, closings_nil, openings_closing, openings_nil]
      omega
  | case2 depth taken rest deeper inductionHypothesis =>
      refine OutAt.prepend ['*', '/'] (stays_of_mark deep) (fun inside _ => ?_)
        (inductionHypothesis (by omega))
      simp only [List.cons_append, List.nil_append, closings_closing, openings_closing]
      omega
  | case3 depth taken rest inductionHypothesis =>
      refine OutAt.prepend ['/', '*'] (stays_of_mark deep) (fun inside _ => ?_)
        (inductionHypothesis (by omega))
      simp only [List.cons_append, List.nil_append, closings_opening, openings_opening]
      omega
  | case4 depth taken first rest notClosing notOpening inductionHypothesis =>
      refine OutAt.prepend [first] (fun shorter within proper => ?_)
        (fun inside begins => ?_) (inductionHypothesis deep)
      · obtain rfl | ⟨tail, rfl, tailWithin⟩ := List.prefix_cons_iff.mp within
        · simpa using deep
        · obtain rfl := List.prefix_nil.mp tailWithin
          exact absurd rfl proper
      · have same : marks (first :: inside) = marks inside := by
          refine marks_cons (fun others isStar slash => ?_) (fun others isSlash star => ?_)
          · obtain ⟨more, rfl⟩ := slash ▸ begins
            exact notClosing _ isStar rfl
          · obtain ⟨more, rfl⟩ := star ▸ begins
            exact notOpening _ isSlash rfl
        simp only [List.cons_append, List.nil_append, closings, openings, same]
        omega
  | case5 depth taken =>
      intro inside begins
      obtain rfl := List.prefix_nil.mp begins
      simpa using deep

/-- Behind its opening mark a block comment leads out of itself. -/
theorem nested_iff {inside : List Char} : Nested ('/' :: '*' :: inside) ↔ LeadsOut 1 inside := by
  have opens : ['/', '*'] <+: '/' :: '*' :: inside := List.prefix_append ['/', '*'] inside
  constructor
  · intro nested
    have balanced := nested.balanced
    rw [openings_opening, closings_opening] at balanced
    have place := outAt_blockCommentEnd Nat.one_pos 0 inside
    cases found : blockCommentEnd 1 0 inside with
    | none =>
        rw [found] at place
        have still := place inside List.prefix_rfl
        omega
    | some finish =>
        rw [found] at place
        obtain ⟨shorter, within, _, leadsOut⟩ := place
        have out := leadsOut.out
        have same := nested.shortest _ (List.prefix_append ['/', '*'] shorter)
          ((List.prefix_append_right_inj ['/', '*']).mpr within)
          (by simp only [List.cons_append, List.nil_append, openings_opening, closings_opening]; omega)
        obtain rfl := (List.append_right_inj _).mp same
        exact leadsOut
  · intro leadsOut
    refine ⟨opens, ?_, ?_⟩
    · rw [openings_opening, closings_opening, leadsOut.out, Nat.add_comm]
    · rintro _ ⟨shorter, rfl⟩ within balanced
      by_contra proper
      have still := leadsOut.first shorter ((List.prefix_append_right_inj ['/', '*']).mp within)
        fun same => proper (congrArg _ same)
      simp only [List.cons_append, List.nil_append, openings_opening, closings_opening] at balanced
      omega

/-- No two texts lead out at the same place. -/
theorem LeadsOut.unique {depth : Nat} {one two text : List Char} (first : LeadsOut depth one)
    (second : LeadsOut depth two) (oneBegins : one <+: text) (twoBegins : two <+: text) : one = two := by
  have apart {shorter longer : List Char} (early : LeadsOut depth shorter)
      (late : LeadsOut depth longer) (within : shorter <+: longer) : shorter = longer := by
    by_contra proper
    have still := late.first shorter within proper
    have out := early.out
    omega
  rcases List.prefix_or_prefix_of_prefix oneBegins twoBegins with within | within
  · exact apart first second within
  · exact (apart second first within).symm

theorem blockComment_of_leadsOut {inside : List Char} (leadsOut : LeadsOut 1 inside)
    (after : List Char) : blockComment (inside ++ after) = ⟨.ok .comment, inside.length + 1, 2⟩ := by
  have place := outAt_blockCommentEnd Nat.one_pos 0 (inside ++ after)
  unfold blockComment
  cases found : blockCommentEnd 1 0 (inside ++ after) with
  | none =>
      rw [found] at place
      have still := place inside (List.prefix_append inside after)
      have out := leadsOut.out
      omega
  | some finish =>
      rw [found] at place
      obtain ⟨other, begins, rfl, leadsOutOther⟩ := place
      obtain rfl := leadsOut.unique leadsOutOther (List.prefix_append inside after) begins
      rw [Nat.zero_add]

/-- A block comment begins behind the opening mark, or there is none. -/
theorem blockComment_cases (body : List Char) :
    (∃ inside after, body = inside ++ after ∧ LeadsOut 1 inside) ∨
      (∀ inside, inside <+: body → ¬ LeadsOut 1 inside) ∧
        blockComment body = ⟨.error .unterminatedBlockComment, body.length + 1, 2⟩ := by
  have place := outAt_blockCommentEnd Nat.one_pos 0 body
  unfold blockComment
  cases found : blockCommentEnd 1 0 body with
  | none =>
      rw [found] at place
      refine .inr ⟨fun inside begins leadsOut => ?_, rfl⟩
      have still := place inside begins
      have out := leadsOut.out
      omega
  | some finish =>
      rw [found] at place
      obtain ⟨inside, ⟨after, same⟩, _, leadsOut⟩ := place
      exact .inl ⟨inside, after, same.symm, leadsOut⟩

end Lox.Lexeme
