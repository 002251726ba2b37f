import Lox.Proofs.Lexeme.Cut
import Lox.Proofs.Places.Excerpt

/-!
Contract: where items stand in a source.

Each call on a stream yields the next item, until the end mark is yielded, and nothing any more
behind it. The items take stretches of the source, one behind the other, and what they leave out
is blank. Line and column of an item are counted in what stands in front of its stretch, whatever
it was cut into, and how much of the stretch is underlined depends on the sort of the lexeme.

Main statement: `Stream.items_occupy`.

Owns: calls on a stream, stretches of a source. Does not own: what the stretches are cut into.
-/

set_option autoImplicit false

namespace Lox

/-! ## Calls -/

namespace Stream

/-- The stream after one more call. -/
def following (stream : Stream) : Stream :=
  match stream.next? with
  | none => stream
  | some (_, behind) => behind

/-- What a call yields, calls being counted from zero. -/
def yielded : Nat → Stream → Option Item
  | 0, stream => stream.next?.map Prod.fst
  | call + 1, stream => yielded call stream.following

theorem following_of_next? {stream behind : Stream} {item : Item}
    (yields : stream.next? = some (item, behind)) : stream.following = behind := by
  rw [following, yields]

section Calls

variable (source : List Char) {text rest : List Char} {position reached : Position} {first : Char}

theorem next?_of_finish (skips : skipSpace position text = (reached, [])) :
    next? ⟨source, text, position, false⟩ =
      some (.ok ⟨.endOfSource, "", reached.span 0⟩, ⟨source, [], reached, true⟩) := by
  simp [next?, skips]

theorem next?_of_lexeme (skips : skipSpace position text = (reached, first :: rest)) :
    next? ⟨source, text, position, false⟩ =
      some (itemOf (Lexeme.at first rest) reached
          (first :: rest.take (Lexeme.at first rest).extent),
        ⟨source, rest.drop (Lexeme.at first rest).extent,
          reached.afterAll (first :: rest.take (Lexeme.at first rest).extent), false⟩) := by
  simp [next?, skips]

/-- Behind the end mark nothing is yielded. -/
theorem yielded_of_finished (call : Nat) :
    yielded call ⟨source, [], position, true⟩ = none := by
  induction call with
  | zero => rfl
  | succ call inductionHypothesis => exact inductionHypothesis

end Calls

end Stream

/-- Calls yield the items of the text, in order, and nothing any more behind them. -/
theorem Scans.yielded {position : Position} {text : List Char} {items : List Item}
    (scans : Scans position text items) (source : List Char) (call : Nat) :
    Stream.yielded call ⟨source, text, position, false⟩ = items[call]? := by
  induction scans generalizing call with
  | finish skips =>
      have yields := Stream.next?_of_finish source skips
      cases call with
      | zero => rw [Stream.yielded, yields]; rfl
      | succ call =>
          rw [Stream.yielded, Stream.following_of_next? yields, Stream.yielded_of_finished]
          rfl
  | lexeme skips _ inductionHypothesis =>
      have yields := Stream.next?_of_lexeme source skips
      cases call with
      | zero => rw [Stream.yielded, yields]; rfl
      | succ call =>
          rw [Stream.yielded, Stream.following_of_next? yields, inductionHypothesis]
          rfl

/-! ## Stretches -/

/-- The characters of a source from one offset to before another. -/
structure Stretch where
  start : Nat
  stop : Nat
deriving DecidableEq, Repr

/-- What stands there. -/
def Stretch.text (source : List Char) (stretch : Stretch) : List Char :=
  (source.take stretch.stop).drop stretch.start

/-- The line of an offset: one more than the line feeds in front of it. -/
def lineAt (source : List Char) (offset : Nat) : Nat :=
  (source.take offset).count '\n' + 1

/-- The column of an offset: one more than the characters in front of it, back to the last line
feed or to the start of the source. -/
def columnAt (source : List Char) (offset : Nat) : Nat :=
  ((source.take offset).reverse.takeWhile (· ≠ '\n')).length + 1

/-- The stretches stand one behind the other from an offset on, and what they leave out is blank. -/
inductive Spread (source : List Char) : Nat → List Stretch → Prop where
  | finish {offset : Nat} (blank : ∀ character ∈ source.drop offset, character ∈ Lexeme.blanks) :
      Spread source offset []
  | stretch {offset : Nat} {stretch : Stretch} {others : List Stretch}
      (behind : offset ≤ stretch.start) (some : stretch.start < stretch.stop)
      (within : stretch.stop ≤ source.length)
      (blank : ∀ character ∈ (source.take stretch.start).drop offset, character ∈ Lexeme.blanks)
      (spread : Spread source stretch.stop others) : Spread source offset (stretch :: others)

namespace Spread

variable {source : List Char} {offset : Nat} {stretches : List Stretch}

theorem behind (spread : Spread source offset stretches) :
    ∀ stretch ∈ stretches, offset ≤ stretch.start := by
  induction spread with
  | finish _ => exact fun _ => nofun
  | stretch behind some _ _ _ inductionHypothesis =>
      refine List.forall_mem_cons.mpr ⟨behind, fun other member => ?_⟩
      have further := inductionHypothesis other member
      omega

/-- Every stretch takes a character, and characters of the source only. -/
theorem bounds (spread : Spread source offset stretches) :
    ∀ stretch ∈ stretches, stretch.start < stretch.stop ∧ stretch.stop ≤ source.length := by
  induction spread with
  | finish _ => exact fun _ => nofun
  | stretch _ some within _ _ inductionHypothesis =>
      exact List.forall_mem_cons.mpr ⟨⟨some, within⟩, inductionHypothesis⟩

theorem pairwise (spread : Spread source offset stretches) :
    stretches.Pairwise fun former latter => former.stop ≤ latter.start := by
  induction spread with
  | finish _ => exact .nil
  | stretch _ _ _ _ others inductionHypothesis => exact .cons others.behind inductionHypothesis

/-- There are no more stretches than characters. -/
theorem length_le (spread : Spread source offset stretches) (within : offset ≤ source.length) :
    offset + stretches.length ≤ source.length := by
  induction spread with
  | finish _ => exact within
  | stretch behind some withinSource _ _ inductionHypothesis =>
      have fits := inductionHypothesis withinSource
      rw [List.length_cons]
      omega

theorem mem_blanks (spread : Spread source offset stretches) {place : Nat} {character : Char}
    (reached : offset ≤ place) (stands : source[place]? = some character)
    (outside : ∀ stretch ∈ stretches, ¬ (stretch.start ≤ place ∧ place < stretch.stop)) :
    character ∈ Lexeme.blanks := by
  induction spread with
  | @finish offset blank =>
      refine blank character (List.mem_of_getElem? (i := place - offset) ?_)
      rw [List.getElem?_drop, Nat.add_sub_cancel' reached, stands]
  | @stretch offset stretch others behind some within blank _ inductionHypothesis =>
      obtain ⟨notHere, outsideOthers⟩ := List.forall_mem_cons.mp outside
      by_cases before : place < stretch.start
      · refine blank character (List.mem_of_getElem? (i := place - offset) ?_)
        rw [List.getElem?_drop, Nat.add_sub_cancel' reached, List.getElem?_take_of_lt before, stands]
      · exact inductionHypothesis (by omega) outsideOthers

end Spread

section Counting

variable (before more : List Char)

theorem lineAt_append : lineAt (before ++ more) before.length = before.count '\n' + 1 := by
  rw [lineAt, List.take_left]

theorem columnAt_append {above front : List Char} (within : '\n' ∉ front)
    (whole : above = [] ∨ ∃ lines, above = lines ++ ['\n']) :
    columnAt (above ++ front ++ more) (above ++ front).length = front.length + 1 := by
  have inLine : ∀ character ∈ front.reverse, decide (character ≠ '\n') = true :=
    Lexeme.forall_ne (by rwa [List.mem_reverse])
  have stops : ∀ character ∈ above.reverse.head?, decide (character ≠ '\n') = false := by
    obtain rfl | ⟨lines, rfl⟩ := whole
    · exact fun _ => nofun
    · intro character head
      rw [List.reverse_append] at head
      obtain rfl : '\n' = character := Option.some.inj head
      rfl
  rw [columnAt, List.take_left, List.reverse_append, Lexeme.takeWhile_append_of_head inLine stops,
    List.length_reverse]

/-- A position is counted in what is in front of it. -/
theorem Position.afterAll_start_eq :
    Position.start.afterAll before =
      ⟨lineAt (before ++ more) before.length, columnAt (before ++ more) before.length⟩ := by
  obtain ⟨above, front, rfl, within, whole⟩ := Text.exists_lineStart before
  rw [Position.afterAll_start within whole, lineAt_append, columnAt_append more within whole,
    List.count_append, List.count_eq_zero.mpr within]

end Counting

/-- The text of a stretch. -/
theorem Stretch.text_append (before covered after : List Char) :
    Stretch.text (before ++ (covered ++ after)) ⟨before.length, before.length + covered.length⟩ =
      covered := by
  rw [Stretch.text, ← List.append_assoc, ← List.length_append, List.take_left, List.drop_left]

/-! ## Items -/

/-- How many characters are underlined of what a lexeme covers: strings and block comments are
shown where they open. -/
def underlined (covered : List Char) : Except ScanError.Cause Token.Kind → Nat
  | .ok (.string _) | .error .unterminatedString => 1
  | .ok .comment => if ['/', '*'].isPrefixOf covered then 2 else covered.length
  | .error .unterminatedBlockComment => 2
  | .ok _ | .error (.unexpectedCharacter _) => covered.length

namespace Lexeme

section Underlined

variable {first : Char} {rest : List Char}

theorem underlined_plain {kind : Token.Kind} {extent : Nat} (within : extent ≤ rest.length)
    (whole : ∀ covered, underlined covered (.ok kind) = covered.length) :
    (plain kind extent).marked = underlined (first :: rest.take extent) (.ok kind) := by
  rw [whole, List.length_cons, List.length_take, Nat.min_eq_left within]
  rfl

theorem underlined_withEqual (alone joined : Symbol) :
    (withEqual alone joined rest).marked =
      underlined (first :: rest.take (withEqual alone joined rest).extent)
        (withEqual alone joined rest).outcome := by
  unfold withEqual
  split
  · exact underlined_plain (Nat.succ_le_succ (Nat.zero_le _)) fun _ => rfl
  · exact underlined_plain (Nat.zero_le _) fun _ => rfl

theorem underlined_word :
    (word first rest).marked =
      underlined (first :: rest.take (word first rest).extent) (word first rest).outcome := by
  have within := extent_word_le first rest
  unfold word at within ⊢
  simp only at within ⊢
  split
  all_goals
    next found =>
      rw [found] at within
      exact underlined_plain within fun _ => rfl

theorem underlined_lineComment (body : List Char) :
    (lineComment body).marked =
      underlined ('/' :: ('/' :: body).take (lineComment body).extent) (lineComment body).outcome := by
  have notBlock (line : List Char) : ['/', '*'].isPrefixOf ('/' :: '/' :: line) = false := rfl
  simp only [lineComment, plain, List.take_succ_cons, take_length_takeWhile, underlined, notBlock,
    Bool.false_eq_true, if_false, List.length_cons]

/-- How much of a lexeme is underlined. -/
theorem marked_at (first : Char) (rest : List Char) :
    («at» first rest).marked =
      underlined (first :: rest.take («at» first rest).extent) («at» first rest).outcome := by
  unfold «at»
  split
  all_goals first
    | exact underlined_withEqual _ _
    | rfl
    | skip
  · split
    · exact underlined_lineComment _
    · unfold blockComment
      split <;> rfl
    · rfl
  · unfold quotation
    simp only
    split <;> rfl
  · split
    · exact underlined_plain (extent_numeral_le first rest) fun _ => rfl
    · split
      · exact underlined_word
      · rfl

end Underlined

end Lexeme

/-- The item stands in this stretch of the source. A token is written there, and is no end mark; an
odd character stands there alone; and what lacks its end goes on to the end of the source. The
span has the line and the column of the first character. -/
structure Item.Occupies (source : List Char) (item : Item) (stretch : Stretch) : Prop where
  token : ∀ token, item = .ok token →
    token.lexeme = String.ofList (stretch.text source) ∧ token.kind ≠ .endOfSource
  unexpected : ∀ error character, item = .error error →
    error.cause = .unexpectedCharacter character → stretch.text source = [character]
  unterminated : ∀ error, item = .error error → error.cause.isUnterminated = true →
    stretch.stop = source.length
  span : item.span = ⟨lineAt source stretch.start, columnAt source stretch.start,
    underlined (stretch.text source) item.outcome⟩

/-- The item of a lexeme stands where the lexeme leads what is left. -/
theorem Stream.occupies_itemOf {lexeme : Lexeme} {covered after : List Char}
    (leads : Lexeme.Leads covered after lexeme.outcome)
    (marked : lexeme.marked = underlined covered lexeme.outcome) (before : List Char) :
    Item.Occupies (before ++ (covered ++ after))
      (itemOf lexeme (Position.start.afterAll before) covered)
      ⟨before.length, before.length + covered.length⟩ := by
  have outcome := outcome_itemOf lexeme (Position.start.afterAll before) covered
  rw [← outcome] at leads
  refine ⟨fun token same => ?_, fun error character same isCause => ?_, fun error same lacksEnd => ?_, ?_⟩
  · rw [Stretch.text_append]
    refine ⟨(shows_itemOf _ _ _).2 token same, fun isEnd => ?_⟩
    rw [same, Item.outcome, isEnd] at leads
    cases leads with
    | token found => cases found.spells
  · rw [same] at leads
    rw [Stretch.text_append]
    exact leads.of_error.2 character isCause
  · rw [same] at leads
    rw [leads.of_error.1 lacksEnd, List.append_nil, List.length_append]
  · rw [span_itemOf, outcome, marked, Stretch.text_append,
      Position.afterAll_start_eq before (covered ++ after)]
    rfl

/-- The items of a text stand in stretches of the source that it is the end of. -/
theorem Scans.occupies {position : Position} {text : List Char} {items : List Item}
    (scans : Scans position text items) {source : List Char} (before : List Char)
    (whole : source = before ++ text) (there : position = Position.start.afterAll before) :
    ∃ front stretches,
      items = front ++ [.ok ⟨.endOfSource, "", (Position.start.afterAll source).span 0⟩] ∧
      List.Forall₂ (Item.Occupies source) front stretches ∧ Spread source before.length stretches := by
  induction scans generalizing before with
  | @finish position reached text skips =>
      obtain ⟨space, same, reaches, blank, _⟩ := Stream.skipSpace_spec skips
      rw [List.append_nil] at same
      subst same
      rw [there, ← Position.afterAll_append, ← whole] at reaches
      refine ⟨[], [], by rw [reaches]; rfl, .nil, .finish fun character member => ?_⟩
      rw [whole, List.drop_left] at member
      exact (Lexeme.isSpace_iff character).mp (blank character member)
  | @lexeme position reached text rest first items skips _ inductionHypothesis =>
      obtain ⟨space, same, reaches, blank, solid⟩ := Stream.skipSpace_spec skips
      have solid : first ∉ Lexeme.blanks := Lexeme.notMem_blanks (solid first rfl)
      obtain ⟨covered, isCovered⟩ :
        ∃ covered, covered = first :: rest.take (Lexeme.at first rest).extent := ⟨_, rfl⟩
      have cut : covered ++ rest.drop (Lexeme.at first rest).extent = first :: rest := by
        rw [isCovered, List.cons_append, List.take_append_drop]
      have split : source = (before ++ space) ++ (covered ++ rest.drop (Lexeme.at first rest).extent) := by
        rw [whole, cut, same, List.append_assoc]
      have start : reached = Position.start.afterAll (before ++ space) := by
        rw [Position.afterAll_append, ← there, reaches]
      rw [← isCovered] at inductionHypothesis ⊢
      obtain ⟨front, stretches, rfl, occupy, spread⟩ := inductionHypothesis
        (before ++ space ++ covered) (by rw [split, List.append_assoc (before ++ space)])
        (by rw [start, ← Position.afterAll_append])
      have leads := (Lexeme.leads_iff solid cut).mpr ⟨isCovered, rfl⟩
      have marked := Lexeme.marked_at first rest
      rw [← isCovered] at marked
      have own := Stream.occupies_itemOf leads marked (before ++ space)
      rw [← split, ← start] at own
      refine ⟨_ :: front, _ :: stretches, rfl, .cons own occupy, .stretch ?_ ?_ ?_ ?_ ?_⟩
      · simp
      · simp [isCovered]
      · simp only [split, List.length_append]
        omega
      · intro character member
        rw [split, List.take_left, List.drop_left] at member
        exact (Lexeme.isSpace_iff character).mp (blank character member)
      · rwa [List.length_append] at spread

/-- Calls on the stream of a source yield finitely many items, no more than characters and the end
mark, and nothing ever after. The end mark is the last one, behind the whole source. The others
take stretches that stand one behind the other, a character at least each, and whatever is in no
stretch is blank. Lines and columns are true wherever comments and strings go over lines. -/
theorem Stream.items_occupy (source : String) :
    ∃ front mark stretches,
      (∀ call, (ofString source).yielded call = (front ++ [.ok mark])[call]?) ∧
      (ofString source).items = front ++ [.ok mark] ∧ front.length ≤ source.length ∧
      (mark.kind = .endOfSource ∧ mark.lexeme = "" ∧
        mark.span = ⟨lineAt source.toList source.length, columnAt source.toList source.length, 0⟩) ∧
      List.Forall₂ (Item.Occupies source.toList) front stretches ∧
      (∀ stretch ∈ stretches, stretch.start < stretch.stop ∧ stretch.stop ≤ source.length) ∧
      stretches.Pairwise (fun former latter => former.stop ≤ latter.start) ∧
      ∀ place character, source.toList[place]? = some character →
        (∀ stretch ∈ stretches, ¬ (stretch.start ≤ place ∧ place < stretch.stop)) →
        character ∈ [' ', '\r', '\t', '\n'] := by
  obtain ⟨front, stretches, items, occupy, spread⟩ :=
    (Scans.ofString source).occupies [] (List.nil_append _).symm rfl
  have length : source.toList.length = source.length := String.length_toList
  have count := spread.length_le (Nat.zero_le _)
  have mark := Position.afterAll_start_eq source.toList []
  rw [List.append_nil, length] at mark
  refine ⟨front, _, stretches, fun call => ?_, items, ?_, ⟨rfl, rfl, ?_⟩, occupy, ?_, spread.pairwise, ?_⟩
  · rw [← items]
    exact (Scans.ofString source).yielded source.toList call
  · rw [occupy.length_eq]
    omega
  · rw [mark]
    rfl
  · rw [← length]
    exact spread.bounds
  · exact fun place character stands outside => spread.mem_blanks (Nat.zero_le _) stands outside

end Lox
