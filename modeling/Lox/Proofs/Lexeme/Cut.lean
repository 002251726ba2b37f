import Mathlib.Data.List.Forall2
import Lox.Proofs.Lexeme.Longest
import Lox.Proofs.Places.Scanning

/-!
Contract: sources are cut into lexemes in one way.

The grammar says what leads a text, and blanks stand between. This leaves no choice: behind the
blanks there is one lexeme, and behind it what is left is cut again. A source has its items of
the lexemes that it is cut into.

Main statement: `Stream.items_lexed`.

Owns: texts cut into lexemes. Does not own: where lexemes stand.
-/

set_option autoImplicit false

namespace Lox

namespace Lexeme

section Lexed

variable {text : List Char} {lexemes : List (List Char × Except ScanError.Cause Token.Kind)}

theorem Leads.exists_first {covered after : List Char}
    {outcome : Except ScanError.Cause Token.Kind} (leads : Leads covered after outcome) :
    ∃ first stretch, covered = first :: stretch ∧ first ∉ blanks := by
  cases leads with
  | token found => exact found.spells.exists_first
  | unterminatedString _ | unterminatedBlockComment _ => exact ⟨_, _, rfl, by decide⟩
  | unexpectedCharacter solid _ => exact ⟨_, [], rfl, solid⟩

/-- What lacks its end goes on to the end, and an odd character stands alone. -/
theorem Leads.of_error {covered after : List Char} {cause : ScanError.Cause}
    (leads : Leads covered after (.error cause)) :
    (cause.isUnterminated = true → after = []) ∧
      ∀ character, cause = .unexpectedCharacter character → covered = [character] := by
  cases leads with
  | unterminatedString _ | unterminatedBlockComment _ => exact ⟨fun _ => rfl, fun _ => nofun⟩
  | unexpectedCharacter _ _ =>
      refine ⟨nofun, fun character same => ?_⟩
      obtain rfl := ScanError.Cause.unexpectedCharacter.inj same
      rfl

/-- Blanks are dropped up to what leads the rest. -/
theorem dropWhile_append_of_leads {space covered after : List Char}
    {outcome : Except ScanError.Cause Token.Kind}
    (blank : ∀ character ∈ space, character ∈ blanks) (leads : Leads covered after outcome) :
    (space ++ (covered ++ after)).dropWhile isSpace = covered ++ after := by
  obtain ⟨first, stretch, rfl, solid⟩ := leads.exists_first
  refine dropWhile_append_of_head (fun character member => ?_) fun character head => ?_
  · exact (isSpace_iff character).mpr (blank character member)
  · obtain rfl : first = character := Option.some.inj head
    exact Bool.eq_false_iff.mpr fun space => solid ((isSpace_iff first).mp space)

/-- Blanks alone are cut into nothing. -/
theorem lexed_iff_of_blank (left : text.dropWhile isSpace = []) :
    Lexed text lexemes ↔ lexemes = [] := by
  constructor
  · intro lexed
    cases lexed with
    | finish _ => rfl
    | lexeme blank leads _ =>
        obtain ⟨first, stretch, rfl, _⟩ := leads.exists_first
        rw [dropWhile_append_of_leads blank leads] at left
        cases left
  · rintro rfl
    exact .finish fun character member =>
      (isSpace_iff character).mp (List.dropWhile_eq_nil_iff.mp left character member)

/-- Behind blanks a text is cut behind what is found there. -/
theorem lexed_iff_of_solid {first : Char} {rest : List Char}
    (left : text.dropWhile isSpace = first :: rest) :
    Lexed text lexemes ↔
      ∃ others, lexemes =
          (first :: rest.take («at» first rest).extent, («at» first rest).outcome) :: others ∧
        Lexed (rest.drop («at» first rest).extent) others := by
  have whole : first :: rest.take («at» first rest).extent ++ rest.drop («at» first rest).extent =
      first :: rest := by
    rw [List.cons_append, List.take_append_drop]
  have solid : first ∉ blanks :=
    notMem_blanks (stops_dropWhile isSpace text first (by rw [left]; rfl))
  constructor
  · intro lexed
    cases lexed with
    | finish blank =>
        rw [List.dropWhile_eq_nil_iff.mpr fun character member =>
          (isSpace_iff character).mpr (blank character member)] at left
        cases left
    | lexeme blank leads behind =>
        rw [dropWhile_append_of_leads blank leads] at left
        obtain ⟨rfl, rfl⟩ := (leads_iff solid left).mp leads
        obtain rfl := (List.append_right_inj _).mp (left.trans whole.symm)
        exact ⟨_, rfl, behind⟩
  · rintro ⟨others, rfl, behind⟩
    have leads := (leads_iff solid whole).mpr ⟨rfl, rfl⟩
    have blank : ∀ character ∈ text.takeWhile isSpace, character ∈ blanks := fun character member =>
      (isSpace_iff character).mp (List.mem_takeWhile_imp member)
    have lexed := Lexed.lexeme blank leads behind
    rwa [whole, ← left, List.takeWhile_append_dropWhile] at lexed

end Lexed

end Lexeme

/-! ## Sources -/

namespace Item

/-- What the item says, wherever it stands. -/
def outcome : Item → Except ScanError.Cause Token.Kind
  | .ok token => .ok token.kind
  | .error error => .error error.cause

/-- The item is this lexeme: it says the same, and a token is written like it. -/
def Shows (item : Item) (lexeme : List Char × Except ScanError.Cause Token.Kind) : Prop :=
  item.outcome = lexeme.2 ∧ ∀ token, item = .ok token → token.lexeme = String.ofList lexeme.1

end Item

namespace Stream

variable (lexeme : Lexeme) (position : Position) (covered : List Char)

theorem outcome_itemOf : Item.outcome (itemOf lexeme position covered) = lexeme.outcome := by
  unfold itemOf
  split <;> (next same => exact same.symm)

theorem shows_itemOf : Item.Shows (itemOf lexeme position covered) (covered, lexeme.outcome) := by
  refine ⟨outcome_itemOf lexeme position covered, fun token same => ?_⟩
  unfold itemOf at same
  split at same
  · obtain rfl := Except.ok.inj same
    rfl
  · cases same

end Stream

/-- What a text is scanned to, is what it is cut into. -/
theorem Scans.lexed {position : Position} {text : List Char} {items : List Item}
    (scans : Scans position text items) :
    ∃ lexemes, (∀ others, Lexeme.Lexed text others ↔ others = lexemes) ∧
      ∃ front mark, items = front ++ [.ok mark] ∧ mark.kind = .endOfSource ∧
        List.Forall₂ Item.Shows front lexemes := by
  induction scans with
  | finish skips =>
      rw [Stream.skipSpace_eq] at skips
      have left := (Prod.mk.inj skips).2
      exact ⟨[], fun others => Lexeme.lexed_iff_of_blank left, [], _, rfl, rfl, .nil⟩
  | @lexeme position reached text rest first items skips _ inductionHypothesis =>
      rw [Stream.skipSpace_eq] at skips
      have left := (Prod.mk.inj skips).2
      obtain ⟨lexemes, only, front, mark, rfl, isMark, shown⟩ := inductionHypothesis
      refine ⟨_ :: lexemes, fun others => ?_, _ :: front, mark, rfl, isMark,
        .cons (Stream.shows_itemOf _ _ _) shown⟩
      simp only [Lexeme.lexed_iff_of_solid left, only, exists_eq_right]

/-- Every source is cut into lexemes by the lexical grammar, in exactly one way, and its items are
these lexemes, in order: a token has the kind and the text of its lexeme, and where there is no
token an error says so. Every token is the longest one at its place, and the text of a number is
always read. -/
theorem Stream.items_lexed (source : String) :
    ∃ lexemes, (∀ others, Lexeme.Lexed source.toList others ↔ others = lexemes) ∧
      ∃ front mark, (ofString source).items = front ++ [.ok mark] ∧ mark.kind = .endOfSource ∧
        List.Forall₂ Item.Shows front lexemes :=
  (Scans.ofString source).lexed

end Lox
