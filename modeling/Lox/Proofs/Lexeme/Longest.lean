import Lox.Proofs.Lexeme.Comments

/-!
Contract: lexemes are the longest matches of the lexical grammar.

What begins at a character is told by looking ahead, one or two characters at most, and by taking
as much as goes on in the same way. The grammar says the same without a direction: a token is one
in its own right, what follows does not prolong it, and no longer text is a token. Both agree:
whatever the grammar has at the beginning of a text is found there, and it has something at every
character that is no blank.

Main statement: `Lexeme.leads_iff`.

Owns: what begins a text. Does not own: what stands between lexemes.
-/

set_option autoImplicit false

namespace Lox

namespace Keyword

/-- A word is reserved by its spelling. -/
theorem ofText?_eq_some_iff {text : String} {word : Keyword} :
    ofText? text = some word ↔ word.text = text := by
  constructor
  · intro found
    simpa using List.find?_some found
  · rintro rfl
    exact ofText?_text word

/-- A reserved word is made of letters. -/
theorem toList_text (word : Keyword) : ∃ first tail, word.text.toList = first :: tail ∧
    Lexeme.isLetter first ∧ tail.all Lexeme.isWordCharacter := by
  cases word <;> exact ⟨_, _, rfl, rfl, rfl⟩

end Keyword

namespace Lexeme

/-! ## Lexemes of each sort -/

theorem isDigit_of_isLetter {character : Char} (letter : isLetter character = true) :
    character.isDigit = false := by
  refine Bool.eq_false_iff.mpr fun digit => ?_
  simp only [Char.isDigit, Bool.and_eq_true, decide_eq_true_eq] at digit
  obtain upper | lower | rfl := (isLetter_iff character).mp letter
  · exact absurd (UInt32.le_trans upper.1 digit.2) (by decide)
  · exact absurd (UInt32.le_trans lower.1 digit.2) (by decide)
  · exact absurd digit.2 (by decide)

theorem at_of_isDigit {first : Char} (digit : first.isDigit = true) (rest : List Char) :
    «at» first rest = numeral first rest := by
  unfold «at»
  split
  all_goals first
    | rw [if_pos digit]
    | cases digit

theorem at_of_isLetter {first : Char} (letter : isLetter first = true) (rest : List Char) :
    «at» first rest = word first rest := by
  have notDigit := isDigit_of_isLetter letter
  unfold «at»
  split
  all_goals first
    | exact (if_neg (Bool.eq_false_iff.mp notDigit)).trans (if_pos letter)
    | cases letter

theorem withEqual_single {alone joined : Symbol} {rest : List Char} (apart : rest.head? ≠ some '=') :
    withEqual alone joined rest = single alone := by
  unfold withEqual
  split
  · exact absurd rfl apart
  · rfl

theorem at_slash {rest : List Char} (notLine : rest.head? ≠ some '/')
    (notBlock : rest.head? ≠ some '*') : «at» '/' rest = single .slash := by
  cases rest with
  | nil => rfl
  | cons second others =>
      simp only [List.head?_cons, ne_eq, Option.some.injEq] at notLine notBlock
      simp [«at», notLine, notBlock]

theorem forall_ne {excluded : Char} {text : List Char} (notMem : excluded ∉ text) :
    ∀ character ∈ text, decide (character ≠ excluded) = true := fun _ member =>
  decide_eq_true fun same => notMem (same ▸ member)

theorem lineComment_append {body after : List Char} (inside : '\n' ∉ body)
    (ends : after = [] ∨ after.head? = some '\n') :
    lineComment (body ++ after) = plain .comment (body.length + 1) := by
  have line : (body ++ after).takeWhile (· ≠ '\n') = body := by
    refine takeWhile_append_of_head (forall_ne inside) fun character head => ?_
    obtain rfl | feed := ends
    · cases head
    · obtain rfl : '\n' = character := Option.some.inj (feed.symm.trans head)
      rfl
  rw [lineComment, line]

theorem quotation_closed {value : List Char} (inside : '"' ∉ value) (after : List Char) :
    quotation (value ++ '"' :: after) =
      ⟨.ok (.string (String.ofList value)), value.length + 1, 1⟩ := by
  have upTo : (value ++ '"' :: after).takeWhile (· ≠ '"') = value := by
    refine takeWhile_append_of_head (forall_ne inside) fun character head => ?_
    obtain rfl : '"' = character := Option.some.inj head
    rfl
  have shorter : value.length < (value ++ '"' :: after).length := by simp
  simp only [quotation, upTo, if_pos shorter]

theorem quotation_open {body : List Char} (inside : '"' ∉ body) :
    quotation body = ⟨.error .unterminatedString, body.length, 1⟩ := by
  have all : body.takeWhile (· ≠ '"') = body :=
    List.takeWhile_eq_self_iff.mpr (forall_ne inside)
  simp only [quotation, all, if_neg (Nat.lt_irrefl _)]

section Stretches

variable {first : Char} {stretch after : List Char}

theorem word_append (others : ∀ character ∈ stretch, isWordCharacter character = true)
    (stops : ∀ character ∈ after.head?, isWordCharacter character = false) :
    word first (stretch ++ after) = word first stretch := by
  unfold word
  rw [takeWhile_append_of_head others stops, List.takeWhile_eq_self_iff.mpr others]

theorem word_of_reserved {reserved : Keyword} (spelled : reserved.text.toList = first :: stretch)
    (others : ∀ character ∈ stretch, isWordCharacter character = true) :
    word first stretch = plain (.keyword reserved) stretch.length := by
  have found : Keyword.ofText? (String.ofList (first :: stretch)) = some reserved :=
    Keyword.ofText?_eq_some_iff.mpr (by rw [← spelled, String.ofList_toList])
  unfold word
  rw [List.takeWhile_eq_self_iff.mpr others]
  simp only [found]

theorem word_of_free (free : ∀ reserved : Keyword, reserved.text.toList ≠ first :: stretch)
    (others : ∀ character ∈ stretch, isWordCharacter character = true) :
    word first stretch = plain .identifier stretch.length := by
  have absent : Keyword.ofText? (String.ofList (first :: stretch)) = none := by
    refine Option.eq_none_iff_forall_ne_some.mpr fun reserved found => free reserved ?_
    rw [Keyword.ofText?_eq_some_iff.mp found, String.toList_ofList]
  unfold word
  rw [List.takeWhile_eq_self_iff.mpr others]
  simp only [absent]

theorem le_extent_numeral (first : Char) (rest : List Char) :
    (rest.takeWhile Char.isDigit).length ≤ (numeral first rest).extent := by
  simp only [numeral, plain]
  split
  · exact Nat.le_refl _
  · omega

theorem numeral_whole (digital : ∀ character ∈ stretch, character.isDigit = true)
    (stops : ∀ character ∈ after.head?, character.isDigit = false)
    (noFraction : fractionDigits after = []) :
    numeral first (stretch ++ after) =
      plain (.number (Number.ofLiteral (first :: stretch) [])) stretch.length := by
  simp [numeral, takeWhile_append_of_head digital stops, noFraction]

theorem numeral_decimal {fraction : List Char}
    (digital : ∀ character ∈ stretch, character.isDigit = true) (some : fraction ≠ [])
    (digitalBehind : ∀ character ∈ fraction, character.isDigit = true)
    (stops : ∀ character ∈ after.head?, character.isDigit = false) :
    numeral first (stretch ++ '.' :: (fraction ++ after)) =
      plain (.number (Number.ofLiteral (first :: stretch) fraction))
        (stretch.length + 1 + fraction.length) := by
  have upTo : (stretch ++ '.' :: (fraction ++ after)).takeWhile Char.isDigit = stretch := by
    refine takeWhile_append_of_head digital fun character point => ?_
    obtain rfl : '.' = character := Option.some.inj point
    rfl
  have behind : fractionDigits ('.' :: (fraction ++ after)) = fraction :=
    takeWhile_append_of_head digitalBehind stops
  simp [numeral, upTo, behind, some]

end Stretches

/-! ## What a token is found as -/

theorem forall_isWordCharacter {text : List Char}
    (others : ∀ character ∈ text, Letter character ∨ Digit character) :
    ∀ character ∈ text, isWordCharacter character = true := fun character member =>
  (isWordCharacter_iff character).mpr (others character member)

theorem forall_isDigit {text : List Char} (digital : ∀ character ∈ text, Digit character) :
    ∀ character ∈ text, character.isDigit = true := fun character member =>
  (isDigit_iff character).mpr (digital character member)

theorem stops_word {after : List Char}
    (ends : ∀ character ∈ after.head?, ¬ (Letter character ∨ Digit character)) :
    ∀ character ∈ after.head?, isWordCharacter character = false := fun character head =>
  Bool.eq_false_iff.mpr fun goesOn => ends character head ((isWordCharacter_iff character).mp goesOn)

theorem stops_digits {after : List Char} (ends : ∀ character ∈ after.head?, ¬ Digit character) :
    ∀ character ∈ after.head?, character.isDigit = false := fun character head =>
  Bool.eq_false_iff.mpr fun goesOn => ends character head ((isDigit_iff character).mp goesOn)

theorem fractionDigits_eq_nil_iff {after : List Char} :
    fractionDigits after = [] ↔ ∀ digit rest, after = '.' :: digit :: rest → ¬ Digit digit := by
  simp only [← isDigit_iff]
  constructor
  · rintro none digit rest rfl digital
    simp [fractionDigits, digital] at none
  · intro ends
    unfold fractionDigits
    split
    · next rest =>
        cases rest with
        | nil => rfl
        | cons digit others => simp [ends digit others rfl]
    · rfl

/-- The lexeme has this outcome and covers just this text. -/
def Covers (text : List Char) (outcome : Except ScanError.Cause Token.Kind) (lexeme : Lexeme) :
    Prop :=
  lexeme.outcome = outcome ∧ lexeme.extent + 1 = text.length

section Found

variable {first : Char} {stretch after : List Char}

theorem covers_symbol {sign : Symbol} (spelled : sign.text.toList = first :: stretch)
    (ends : EndsAt (first :: stretch) after (.symbol sign)) :
    Covers (first :: stretch) (.ok (.symbol sign)) («at» first (stretch ++ after)) := by
  cases sign
  case bang | equal | less | greater =>
    obtain ⟨rfl, rfl⟩ := List.cons.inj spelled
    exact ⟨congrArg outcome (withEqual_single ends), congrArg (extent · + 1) (withEqual_single ends)⟩
  case slash =>
    obtain ⟨rfl, rfl⟩ := List.cons.inj spelled
    exact ⟨congrArg outcome (at_slash ends.1 ends.2), congrArg (extent · + 1) (at_slash ends.1 ends.2)⟩
  all_goals
    obtain ⟨rfl, rfl⟩ := List.cons.inj spelled
    exact ⟨rfl, rfl⟩

theorem covers_number {value : Float} (numeral : Numeral (first :: stretch))
    (reads : Number.ofText? (first :: stretch) = some value)
    (ends : EndsAt (first :: stretch) after (.number value)) :
    Covers (first :: stretch) (.ok (.number value)) («at» first (stretch ++ after)) := by
  obtain ⟨text, whole⟩ : ∃ text, text = first :: stretch := ⟨_, rfl⟩
  rw [← whole] at numeral reads
  cases numeral with
  | whole some digital =>
      subst whole
      obtain ⟨digit, others⟩ := List.forall_mem_cons.mp (forall_isDigit digital)
      have value := Number.ofText?_whole some (forall_isDigit digital)
      have notPoint : '.' ∉ first :: stretch := fun member => by
        cases forall_isDigit digital '.' member
      have noFraction := fractionDigits_eq_nil_iff.mpr (ends.2.resolve_left notPoint)
      rw [at_of_isDigit digit, numeral_whole others (stops_digits ends.1) noFraction]
      obtain rfl := Option.some.inj (value.symm.trans reads)
      exact ⟨rfl, rfl⟩
  | @decimal digits fraction some digital someBehind digitalBehind =>
      obtain ⟨other, tail, rfl⟩ := List.exists_cons_of_ne_nil some
      rw [List.cons_append] at whole
      obtain ⟨rfl, rfl⟩ := List.cons.inj whole
      obtain ⟨digit, others⟩ := List.forall_mem_cons.mp (forall_isDigit digital)
      have behind := forall_isDigit digitalBehind
      have value := Number.ofText?_decimal some (forall_isDigit digital) behind
      rw [at_of_isDigit digit, List.append_assoc, List.cons_append,
        numeral_decimal others someBehind behind (stops_digits ends.1)]
      obtain rfl := Option.some.inj (value.symm.trans reads)
      refine ⟨rfl, ?_⟩
      simp only [plain, List.length_cons, List.length_append]
      omega

/-- A token that is not prolonged by what follows is found as such. -/
theorem covers_at {kind : Token.Kind} (spells : Spells (first :: stretch) kind)
    (ends : EndsAt (first :: stretch) after kind) :
    Covers (first :: stretch) (.ok kind) («at» first (stretch ++ after)) := by
  obtain ⟨text, whole⟩ : ∃ text, text = first :: stretch := ⟨_, rfl⟩
  rw [← whole] at spells
  cases spells with
  | symbol sign => exact covers_symbol whole ends
  | keyword reserved =>
      obtain ⟨letter, tail, spelled, isLetter, others⟩ := reserved.toList_text
      have others := List.all_eq_true.mp others
      obtain ⟨rfl, rfl⟩ := List.cons.inj (whole.symm.trans spelled)
      rw [at_of_isLetter isLetter, word_append others (stops_word ends),
        word_of_reserved spelled others]
      exact ⟨rfl, rfl⟩
  | identifier letter others free =>
      obtain ⟨rfl, rfl⟩ := List.cons.inj whole
      have others := forall_isWordCharacter others
      rw [at_of_isLetter ((isLetter_iff _).mpr letter), word_append others (stops_word ends),
        word_of_free free others]
      exact ⟨rfl, rfl⟩
  | number numeral reads => exact covers_number (whole ▸ numeral) (whole ▸ reads) ends
  | string inside =>
      obtain ⟨rfl, rfl⟩ := List.cons.inj whole
      rw [List.append_assoc, List.singleton_append]
      exact ⟨congrArg outcome (quotation_closed inside after),
        (congrArg (extent · + 1) (quotation_closed inside after)).trans (by simp)⟩
  | lineComment inside =>
      obtain ⟨rfl, rfl⟩ := List.cons.inj whole
      have found := lineComment_append inside (ends (List.prefix_append ['/', '/'] _))
      exact ⟨congrArg outcome found, congrArg (extent · + 1) found⟩
  | blockComment nested =>
      subst whole
      obtain ⟨inside, same⟩ := nested.opens
      obtain ⟨rfl, rfl⟩ := List.cons.inj same
      have found := blockComment_of_leadsOut (nested_iff.mp nested) after
      exact ⟨congrArg outcome found, congrArg (extent · + 1) found⟩

/-- No text that is a token is longer than the lexeme that is found. -/
theorem length_le_extent {kind : Token.Kind} (spells : Spells (first :: stretch) kind)
    (after : List Char) : stretch.length ≤ («at» first (stretch ++ after)).extent := by
  obtain ⟨text, whole⟩ : ∃ text, text = first :: stretch := ⟨_, rfl⟩
  rw [← whole] at spells
  cases spells with
  | symbol sign =>
      cases sign
      case bangEqual | equalEqual | lessEqual | greaterEqual =>
        obtain ⟨rfl, rfl⟩ := List.cons.inj whole
        exact Nat.le_refl 1
      all_goals
        obtain ⟨rfl, rfl⟩ := List.cons.inj whole
        exact Nat.zero_le _
  | keyword reserved =>
      obtain ⟨letter, tail, spelled, isLetter, others⟩ := reserved.toList_text
      obtain ⟨rfl, rfl⟩ := List.cons.inj (whole.symm.trans spelled)
      rw [at_of_isLetter isLetter, extent_word]
      exact length_le_takeWhile (List.all_eq_true.mp others) after
  | identifier letter others free =>
      obtain ⟨rfl, rfl⟩ := List.cons.inj whole
      rw [at_of_isLetter ((isLetter_iff _).mpr letter), extent_word]
      exact length_le_takeWhile (forall_isWordCharacter others) after
  | number numeral reads =>
      cases numeral with
      | whole some digital =>
          subst whole
          obtain ⟨digit, others⟩ := List.forall_mem_cons.mp (forall_isDigit digital)
          rw [at_of_isDigit digit]
          exact (length_le_takeWhile others after).trans (le_extent_numeral first _)
      | @decimal digits fraction some digital someBehind digitalBehind =>
          obtain ⟨other, tail, rfl⟩ := List.exists_cons_of_ne_nil some
          rw [List.cons_append] at whole
          obtain ⟨rfl, rfl⟩ := List.cons.inj whole
          obtain ⟨digit, others⟩ := List.forall_mem_cons.mp (forall_isDigit digital)
          -- The fraction may go on behind the text.
          have longer := length_le_takeWhile (forall_isDigit digitalBehind) after
          have found : numeral other _ = _ := numeral_decimal others
            (List.length_pos_iff.mp ((List.length_pos_iff.mpr someBehind).trans_le longer))
            (fun character member => List.mem_takeWhile_imp member)
            (stops_dropWhile Char.isDigit (fraction ++ after))
          rw [List.takeWhile_append_dropWhile] at found
          rw [at_of_isDigit digit, List.append_assoc, List.cons_append, found]
          simp only [plain, List.length_append, List.length_cons]
          omega
  | string inside =>
      obtain ⟨rfl, rfl⟩ := List.cons.inj whole
      have found := quotation_closed inside after
      rw [List.append_assoc, List.singleton_append]
      exact (by simp : _ ≤ _ + 1).trans_eq (congrArg extent found).symm
  | lineComment inside =>
      obtain ⟨rfl, rfl⟩ := List.cons.inj whole
      exact Nat.succ_le_succ (length_le_takeWhile (forall_ne inside) after)
  | blockComment nested =>
      subst whole
      obtain ⟨inside, same⟩ := nested.opens
      obtain ⟨rfl, rfl⟩ := List.cons.inj same
      have found := blockComment_of_leadsOut (nested_iff.mp nested) after
      exact (Nat.le_refl _).trans_eq (congrArg extent found).symm

end Found

/-! ## What leads a text -/

/-- The text of a number begins with a digit. -/
theorem Numeral.exists_first {text : List Char} (numeral : Numeral text) :
    ∃ first tail, text = first :: tail ∧ first.isDigit = true := by
  cases numeral with
  | whole some digital | decimal some digital _ _ =>
      obtain ⟨first, tail, rfl⟩ := List.exists_cons_of_ne_nil some
      exact ⟨first, _, rfl, forall_isDigit digital first List.mem_cons_self⟩

/-- A token begins with a character that is no blank. -/
theorem Spells.exists_first {text : List Char} {kind : Token.Kind} (spells : Spells text kind) :
    ∃ first stretch, text = first :: stretch ∧ first ∉ blanks := by
  cases spells with
  | symbol sign => cases sign <;> exact ⟨_, _, rfl, by decide⟩
  | keyword reserved =>
      obtain ⟨first, tail, spelled, letter, _⟩ := reserved.toList_text
      exact ⟨first, tail, spelled, notMem_of_test rfl letter⟩
  | identifier letter _ _ =>
      exact ⟨_, _, rfl, notMem_of_test rfl ((isLetter_iff _).mpr letter)⟩
  | number numeral _ =>
      obtain ⟨first, tail, rfl, digit⟩ := numeral.exists_first
      exact ⟨first, tail, rfl, notMem_of_test rfl digit⟩
  | string _ | lineComment _ => exact ⟨_, _, rfl, by decide⟩
  | blockComment nested =>
      obtain ⟨inside, rfl⟩ := nested.opens
      exact ⟨_, _, rfl, by decide⟩

/-- What is not prolonged is the longest token. -/
theorem isToken_of_endsAt {covered after : List Char} {kind : Token.Kind}
    (spells : Spells covered kind) (ends : EndsAt covered after kind) :
    IsToken covered after kind where
  spells := spells
  ends := ends
  longest := by
    rintro text other ⟨behind, same⟩ spellsOther
    obtain ⟨first, stretch, rfl, _⟩ := spells.exists_first
    obtain ⟨second, others, rfl, _⟩ := spellsOther.exists_first
    rw [List.cons_append, List.cons_append] at same
    obtain ⟨rfl, rest⟩ := List.cons.inj same
    have atMost := length_le_extent spellsOther behind
    have exactly := (covers_at spells ends).2
    rw [rest] at atMost
    rw [List.length_cons]
    omega

/-- A letter begins a reserved word or an identifier. -/
theorem exists_spells_of_isLetter {first : Char} {tail : List Char} (letter : isLetter first = true)
    (others : ∀ character ∈ tail, isWordCharacter character = true) :
    ∃ kind, Spells (first :: tail) kind ∧ ((∃ word, kind = .keyword word) ∨ kind = .identifier) := by
  by_cases reserved : ∃ word : Keyword, word.text.toList = first :: tail
  · obtain ⟨word, spelled⟩ := reserved
    exact ⟨.keyword word, spelled ▸ Spells.keyword word, .inl ⟨word, rfl⟩⟩
  · refine ⟨.identifier, .identifier ((isLetter_iff _).mp letter) (fun character member => ?_)
      fun word spelled => reserved ⟨word, spelled⟩, .inr rfl⟩
    exact (isWordCharacter_iff character).mp (others character member)

/-- Digits are a number. -/
theorem spells_whole {digits : List Char} (some : digits ≠ [])
    (digital : ∀ character ∈ digits, character.isDigit = true) :
    Spells digits (.number (Number.ofLiteral digits [])) :=
  .number (.whole some fun character member => (isDigit_iff character).mp (digital character member))
    (Number.ofText?_whole some digital)

/-- Digits and a fraction behind them are a number. -/
theorem spells_decimal {digits fraction : List Char} (some : digits ≠ [])
    (digital : ∀ character ∈ digits, character.isDigit = true) (someBehind : fraction ≠ [])
    (digitalBehind : ∀ character ∈ fraction, character.isDigit = true) :
    Spells (digits ++ '.' :: fraction) (.number (Number.ofLiteral digits fraction)) :=
  .number
    (.decimal some (fun character member => (isDigit_iff character).mp (digital character member))
      someBehind fun character member => (isDigit_iff character).mp (digitalBehind character member))
    (Number.ofText?_decimal some digital digitalBehind)

/-- Where nothing begins, an odd character is found. -/
theorem at_of_nothing {first : Char} (nothing : ∀ more kind, ¬ Spells (first :: more) kind)
    (rest : List Char) : «at» first rest = ⟨.error (.unexpectedCharacter first), 0, 1⟩ := by
  have noSign (sign : Symbol) : sign.text.toList.head? ≠ some first := by
    intro begins
    obtain ⟨more, spelled⟩ := List.head?_eq_some_iff.mp begins
    exact nothing more _ (spelled ▸ Spells.symbol sign)
  have noDigit : first.isDigit = false := Bool.eq_false_iff.mpr fun digit =>
    nothing [] _ (spells_whole (List.cons_ne_nil _ _) (by simpa using digit))
  have noLetter : isLetter first = false := Bool.eq_false_iff.mpr fun letter => by
    obtain ⟨kind, spells, _⟩ := exists_spells_of_isLetter letter (List.forall_mem_nil _)
    exact nothing [] kind spells
  unfold «at»
  split
  · exact absurd rfl (noSign .leftParen)
  · exact absurd rfl (noSign .rightParen)
  · exact absurd rfl (noSign .leftBrace)
  · exact absurd rfl (noSign .rightBrace)
  · exact absurd rfl (noSign .comma)
  · exact absurd rfl (noSign .dot)
  · exact absurd rfl (noSign .minus)
  · exact absurd rfl (noSign .plus)
  · exact absurd rfl (noSign .semicolon)
  · exact absurd rfl (noSign .star)
  · exact absurd rfl (noSign .bang)
  · exact absurd rfl (noSign .equal)
  · exact absurd rfl (noSign .less)
  · exact absurd rfl (noSign .greater)
  · exact absurd rfl (noSign .slash)
  · exact (nothing ['"'] _ (.string (List.not_mem_nil (a := '"')))).elim
  · rw [noDigit, noLetter]
    rfl

/-- What leads a text is found at its beginning. -/
theorem covers_of_leads {covered after : List Char} {outcome : Except ScanError.Cause Token.Kind}
    (leads : Leads covered after outcome) {first : Char} {rest : List Char}
    (same : covered ++ after = first :: rest) : Covers covered outcome («at» first rest) := by
  cases leads with
  | token found =>
      obtain ⟨second, stretch, rfl, _⟩ := found.spells.exists_first
      rw [List.cons_append] at same
      obtain ⟨rfl, rfl⟩ := List.cons.inj same
      exact covers_at found.spells found.ends
  | unterminatedString inside =>
      rw [List.append_nil] at same
      obtain ⟨rfl, rfl⟩ := List.cons.inj same
      have found := quotation_open inside
      exact ⟨congrArg Lexeme.outcome found, congrArg (extent · + 1) found⟩
  | @unterminatedBlockComment body endless =>
      rw [List.append_nil] at same
      obtain ⟨rfl, rfl⟩ := List.cons.inj same
      obtain ⟨inside, after, rfl, leadsOut⟩ | ⟨_, found⟩ := blockComment_cases body
      · have begins : '/' :: '*' :: inside <+: '/' :: '*' :: (inside ++ after) :=
          List.prefix_append ('/' :: '*' :: inside) after
        exact (endless _ begins (nested_iff.mpr leadsOut)).elim
      · exact ⟨congrArg Lexeme.outcome found, congrArg (extent · + 1) found⟩
  | unexpectedCharacter solid nothing =>
      rw [List.singleton_append] at same
      obtain ⟨rfl, rfl⟩ := List.cons.inj same
      have found := at_of_nothing nothing after
      exact ⟨congrArg Lexeme.outcome found, congrArg (extent · + 1) found⟩

/-! ## Every text is led by something -/

/-- Something leads the text. -/
def Led (text : List Char) : Prop :=
  ∃ covered after outcome, covered ++ after = text ∧ Leads covered after outcome

theorem led_of_endsAt {covered : List Char} {kind : Token.Kind} (spells : Spells covered kind)
    (after : List Char) (ends : EndsAt covered after kind) : Led (covered ++ after) :=
  ⟨covered, after, .ok kind, rfl, .token (isToken_of_endsAt spells ends)⟩

section Led

variable {first : Char} (rest : List Char)

theorem led_word (letter : isLetter first = true) : Led (first :: rest) := by
  have stops := stops_dropWhile isWordCharacter rest
  obtain ⟨kind, spells, sort⟩ := exists_spells_of_isLetter letter
    (fun character (member : character ∈ rest.takeWhile isWordCharacter) => List.mem_takeWhile_imp member)
  have ends : EndsAt (first :: rest.takeWhile isWordCharacter) (rest.dropWhile isWordCharacter) kind := by
    obtain ⟨reserved, rfl⟩ | rfl := sort
    all_goals
      intro character head goesOn
      exact Bool.eq_false_iff.mp (stops character head) ((isWordCharacter_iff character).mpr goesOn)
  have led := led_of_endsAt spells _ ends
  rwa [List.cons_append, List.takeWhile_append_dropWhile] at led

theorem led_number (digit : first.isDigit = true) : Led (first :: rest) := by
  have digital : ∀ character ∈ first :: rest.takeWhile Char.isDigit, character.isDigit = true :=
    List.forall_mem_cons.mpr ⟨digit, fun character member => List.mem_takeWhile_imp member⟩
  have stops (text : List Char) : ∀ character ∈ (text.dropWhile Char.isDigit).head?, ¬ Digit character :=
    fun character head goesOn =>
      Bool.eq_false_iff.mp (stops_dropWhile Char.isDigit text character head)
        ((isDigit_iff character).mpr goesOn)
  have split : first :: rest.takeWhile Char.isDigit ++ rest.dropWhile Char.isDigit = first :: rest := by
    rw [List.cons_append, List.takeWhile_append_dropWhile]
  by_cases none : fractionDigits (rest.dropWhile Char.isDigit) = []
  · rw [← split]
    exact led_of_endsAt (spells_whole (List.cons_ne_nil _ _) digital) _
      ⟨stops rest, .inr (fractionDigits_eq_nil_iff.mp none)⟩
  · cases behind : rest.dropWhile Char.isDigit with
    | nil => exact absurd (by rw [behind]; rfl) none
    | cons point tail =>
        obtain rfl : point = '.' := by
          by_contra other
          refine none (fractionDigits_eq_nil_iff.mpr fun _ _ same => ?_)
          exact absurd (List.cons.inj (behind.symm.trans same)).1 other
        rw [behind] at none split
        have spells := spells_decimal (List.cons_ne_nil _ _) digital none (forall_fractionDigits _)
        have splitTail : fractionDigits ('.' :: tail) ++ tail.dropWhile Char.isDigit = tail :=
          List.takeWhile_append_dropWhile
        have led := led_of_endsAt spells (tail.dropWhile Char.isDigit)
          ⟨stops tail, .inl (List.mem_append_right _ List.mem_cons_self)⟩
        rwa [List.append_assoc, List.cons_append (a := '.'), splitTail, split] at led

theorem led_quote : Led ('"' :: rest) := by
  by_cases closed : '"' ∈ rest
  · obtain ⟨value, after, rfl, inside⟩ := List.eq_append_cons_of_mem closed
    have led := led_of_endsAt (.string inside) after trivial
    rwa [List.cons_append, List.append_assoc] at led
  · exact ⟨_, [], _, List.append_nil _, .unterminatedString closed⟩

theorem led_lineComment : Led ('/' :: '/' :: rest) := by
  by_cases closed : '\n' ∈ rest
  · obtain ⟨body, after, rfl, inside⟩ := List.eq_append_cons_of_mem closed
    exact led_of_endsAt (.lineComment inside) ('\n' :: after) fun _ => .inr rfl
  · have led := led_of_endsAt (.lineComment closed) [] fun _ => .inl rfl
    rwa [List.append_nil] at led

theorem led_blockComment : Led ('/' :: '*' :: rest) := by
  obtain ⟨inside, after, rfl, leadsOut⟩ | ⟨endless, _⟩ := blockComment_cases rest
  · refine led_of_endsAt (.blockComment (nested_iff.mpr leadsOut)) after fun isLine => ?_
    simp at isLine
  · refine ⟨_, [], _, List.append_nil _, .unterminatedBlockComment fun text begins nested => ?_⟩
    obtain ⟨inside, rfl⟩ := nested.opens
    exact endless inside ((List.prefix_append_right_inj ['/', '*']).mp begins)
      (nested_iff.mp nested)

theorem led_slash : Led ('/' :: rest) := by
  by_cases line : rest.head? = some '/'
  · obtain ⟨body, rfl⟩ := List.head?_eq_some_iff.mp line
    exact led_lineComment body
  · by_cases block : rest.head? = some '*'
    · obtain ⟨body, rfl⟩ := List.head?_eq_some_iff.mp block
      exact led_blockComment body
    · exact led_of_endsAt (.symbol .slash) rest ⟨line, block⟩

/-- A sign that an equals sign behind it turns into another. -/
theorem led_withEqual (alone joined : Symbol) (aloneText : alone.text.toList = [first])
    (joinedText : joined.text.toList = [first, '='])
    (aloneEnds : rest.head? ≠ some '=' → EndsAt [first] rest (.symbol alone))
    (joinedEnds : ∀ after, EndsAt [first, '='] after (.symbol joined)) : Led (first :: rest) := by
  by_cases equal : rest.head? = some '='
  · obtain ⟨after, rfl⟩ := List.head?_eq_some_iff.mp equal
    exact led_of_endsAt (joinedText ▸ Spells.symbol joined) after (joinedEnds after)
  · exact led_of_endsAt (aloneText ▸ Spells.symbol alone) rest (aloneEnds equal)

theorem led_symbol {sign : Symbol} (begins : sign.text.toList.head? = some first) :
    Led (first :: rest) := by
  obtain ⟨stretch, spelled⟩ := List.head?_eq_some_iff.mp begins
  have plainly (single : stretch = []) (ends : EndsAt sign.text.toList rest (.symbol sign)) :
      Led (first :: rest) := by
    have led := led_of_endsAt (.symbol sign) rest ends
    rwa [spelled, single] at led
  cases sign
  case bang | bangEqual =>
    obtain ⟨rfl, _⟩ := List.cons.inj spelled
    exact led_withEqual rest .bang .bangEqual rfl rfl id fun _ => trivial
  case equal | equalEqual =>
    obtain ⟨rfl, _⟩ := List.cons.inj spelled
    exact led_withEqual rest .equal .equalEqual rfl rfl id fun _ => trivial
  case less | lessEqual =>
    obtain ⟨rfl, _⟩ := List.cons.inj spelled
    exact led_withEqual rest .less .lessEqual rfl rfl id fun _ => trivial
  case greater | greaterEqual =>
    obtain ⟨rfl, _⟩ := List.cons.inj spelled
    exact led_withEqual rest .greater .greaterEqual rfl rfl id fun _ => trivial
  case slash =>
    obtain ⟨rfl, _⟩ := List.cons.inj spelled
    exact led_slash rest
  all_goals exact plainly (List.cons.inj spelled).2.symm trivial

/-- Every character that is no blank begins a token or a lexical error. -/
theorem led_of_solid (solid : first ∉ blanks) : Led (first :: rest) := by
  by_cases something : ∃ more kind, Spells (first :: more) kind
  · obtain ⟨more, kind, spells⟩ := something
    obtain ⟨text, whole⟩ : ∃ text, text = first :: more := ⟨_, rfl⟩
    rw [← whole] at spells
    cases spells with
    | symbol sign => exact led_symbol rest (congrArg List.head? whole)
    | keyword reserved =>
        obtain ⟨letter, tail, spelled, isLetter, _⟩ := reserved.toList_text
        obtain ⟨rfl, _⟩ := List.cons.inj (whole.symm.trans spelled)
        exact led_word rest isLetter
    | identifier letter _ _ =>
        obtain ⟨rfl, _⟩ := List.cons.inj whole
        exact led_word rest ((isLetter_iff _).mpr letter)
    | number numeral _ =>
        obtain ⟨other, tail, rfl, digit⟩ := numeral.exists_first
        obtain ⟨rfl, _⟩ := List.cons.inj whole
        exact led_number rest digit
    | string _ =>
        obtain ⟨rfl, _⟩ := List.cons.inj whole
        exact led_quote rest
    | lineComment _ =>
        obtain ⟨rfl, _⟩ := List.cons.inj whole
        exact led_slash rest
    | blockComment nested =>
        obtain ⟨inside, rfl⟩ := nested.opens
        obtain ⟨rfl, _⟩ := List.cons.inj whole
        exact led_slash rest
  · exact ⟨[first], rest, _, rfl, .unexpectedCharacter solid fun more kind spells =>
      something ⟨more, kind, spells⟩⟩

end Led

/-- What is found at the beginning of a text leads it, and nothing else does. -/
theorem leads_iff {first : Char} (solid : first ∉ blanks) {covered after rest : List Char}
    {outcome : Except ScanError.Cause Token.Kind} (same : covered ++ after = first :: rest) :
    Leads covered after outcome ↔
      covered = first :: rest.take («at» first rest).extent ∧
        outcome = («at» first rest).outcome := by
  have found {covered after : List Char} {outcome : Except ScanError.Cause Token.Kind}
      (leads : Leads covered after outcome) (same : covered ++ after = first :: rest) :
      covered = first :: rest.take («at» first rest).extent ∧
        outcome = («at» first rest).outcome := by
    obtain ⟨isOutcome, length⟩ := covers_of_leads leads same
    have begins := List.prefix_iff_eq_take.mp (same ▸ List.prefix_append covered after)
    rw [← length, List.take_succ_cons] at begins
    exact ⟨begins, isOutcome.symm⟩
  constructor
  · exact fun leads => found leads same
  · rintro ⟨rfl, rfl⟩
    obtain ⟨text, behind, _, whole, leads⟩ := led_of_solid rest solid
    obtain ⟨rfl, rfl⟩ := found leads whole
    obtain rfl := (List.append_right_inj _).mp (same.trans whole.symm)
    exact leads

end Lexeme

end Lox
