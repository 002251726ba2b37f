import Lox.Proofs.Grammar.Complaints
import Lox.Proofs.Places.Excerpt
import Mathlib.Data.List.Nodup

/-!
Contract: the order of places in a source, and of the errors found there.

A source is scanned from its start to its end, so tokens, and lexical errors, stand one behind
the other. The complaints of the parser come in the order of their tokens, but for an invalid
target: it is noted behind what is noted in the value, which stands further on. So syntax errors
are in order exactly if nothing is noted in the value of an invalid assignment.

Main statement: `Program.syntaxErrors_inOrder_iff`.

Owns: the order of spans, of tokens, of lexical and of syntax errors. Does not own: binding errors.
-/

set_option autoImplicit false

namespace Lox

/-! ## The order of spans -/

/-- The one span begins before the other. -/
def Span.Before (first second : Span) : Prop :=
  first.line < second.line ∨ first.line = second.line ∧ first.column < second.column

instance (first second : Span) : Decidable (first.Before second) := by
  unfold Span.Before
  infer_instance

/-- Every span begins behind those in front of it. -/
def Ascending (spans : List Span) : Prop := spans.Pairwise Span.Before

/-- No span begins before one in front of it. -/
def InOrder (spans : List Span) : Prop :=
  spans.Pairwise fun earlier later => ¬ later.Before earlier

instance (spans : List Span) : Decidable (InOrder spans) := by
  unfold InOrder
  infer_instance

theorem Span.before_trans {first second third : Span} (former : first.Before second)
    (latter : second.Before third) : first.Before third := by
  unfold Before at *
  omega

theorem Span.not_before_self (span : Span) : ¬ span.Before span := by
  unfold Before
  omega

theorem Span.not_before_of_before {first second : Span} (before : first.Before second) :
    ¬ second.Before first := by
  unfold Before at *
  omega

theorem Ascending.inOrder {spans : List Span} (ascending : Ascending spans) : InOrder spans :=
  ascending.imp Span.not_before_of_before

/-! ## Sources -/

/-- A character takes a position further. -/
theorem Position.span_before_after (position : Position) (character : Char) (length other : Nat) :
    (position.span length).Before ((position.after character).span other) := by
  unfold after span Span.Before
  split
  · exact .inl (Nat.lt_succ_self _)
  · exact .inr ⟨rfl, Nat.lt_succ_self _⟩

theorem Position.not_span_afterAll_before (position : Position) (text : List Char)
    (length other : Nat) :
    ¬ ((position.afterAll text).span other).Before (position.span length) := by
  induction text generalizing position length with
  | nil =>
      unfold afterAll span Span.Before
      simp
  | cons character rest inductionHypothesis =>
      intro earlier
      have further := position.span_before_after character length 0
      have behind := Span.before_trans earlier further
      exact inductionHypothesis (position.after character) 0 behind

/-- What stands behind a text stands behind the start of the text. -/
theorem Span.before_of_afterAll {position : Position} {first : Char} {rest : List Char}
    {span : Span} (length : Nat)
    (behind : ¬ span.Before ((position.afterAll (first :: rest)).span 0)) :
    (position.span length).Before span := by
  have further := position.span_before_after first length 0
  have reached := (position.after first).not_span_afterAll_before rest 0 0
  rw [Position.afterAll_cons] at behind
  unfold Before at *
  omega

/-- The items of a source stand one behind the other, and behind the place where scanning began. -/
theorem Scans.ascending {position : Position} {text : List Char} {items : List Item}
    (scans : Scans position text items) :
    Ascending (items.map Item.span) ∧ ∀ item ∈ items, ¬ item.span.Before (position.span 0) := by
  induction scans with
  | @finish position reached text skips =>
      obtain ⟨space, _, reaches, _⟩ := Stream.skipSpace_spec skips
      refine ⟨List.pairwise_singleton _ _, fun item member => ?_⟩
      obtain rfl := List.mem_singleton.mp member
      have behind := position.not_span_afterAll_before space 0 0
      rwa [← reaches] at behind
  | @lexeme position reached text rest first items skips others inductionHypothesis =>
      obtain ⟨ascending, behindLexeme⟩ := inductionHypothesis
      obtain ⟨space, _, reaches, _⟩ := Stream.skipSpace_spec skips
      have own (item : Item) (member : item ∈ items) (length : Nat) :
          (reached.span length).Before item.span :=
        Span.before_of_afterAll length (behindLexeme item member)
      have notBefore : ¬ (reached.span 0).Before (position.span 0) := by
        have behind := position.not_span_afterAll_before space 0 0
        rwa [← reaches] at behind
      refine ⟨List.pairwise_cons.mpr ⟨fun span member => ?_, ascending⟩, fun item member => ?_⟩
      · obtain ⟨item, among, rfl⟩ := List.mem_map.mp member
        rw [Stream.span_itemOf]
        exact own item among _
      · intro earlier
        rcases List.mem_cons.mp member with rfl | among
        · rw [Stream.span_itemOf] at earlier
          exact notBefore earlier
        · exact notBefore (Span.before_trans (own item among 0) earlier)

namespace Scan

/-- Tokens come in the order of the items. -/
theorem tokens_sublist (items : List Item) :
    ((ofItems items).tokens.map Token.span).Sublist (items.map Item.span) := by
  induction items with
  | nil => exact List.Sublist.slnil
  | cons item rest inductionHypothesis =>
      cases item with
      | ok token => exact inductionHypothesis.cons_cons token.span
      | error error => exact inductionHypothesis.cons error.span

/-- Lexical errors come in the order of the items. -/
theorem errors_sublist (items : List Item) :
    ((ofItems items).errors.map ScanError.span).Sublist (items.map Item.span) := by
  induction items with
  | nil => exact List.Sublist.slnil
  | cons item rest inductionHypothesis =>
      cases item with
      | ok token => exact inductionHypothesis.cons token.span
      | error error => exact inductionHypothesis.cons_cons error.span

theorem ascending_items (source : String) :
    Ascending ((Stream.ofString source).items.map Item.span) := by
  exact (Scans.ofString source).ascending.1

/-- Lexical errors are in order. -/
theorem errors_ascending (source : String) :
    Ascending ((Scan.of source).errors.map ScanError.span) :=
  (ascending_items source).sublist (errors_sublist _)

end Scan

namespace Grammar

/-! ## Complaints -/

/-- Where the next token stands, or where the text ends. -/
def spanOf (finish : Span) (token : Option Token) : Span := (token.map Token.span).getD finish

theorem span_toError (finish : Span) (complaint : Complaint) :
    (complaint.toError finish).span = spanOf finish complaint.token := by
  unfold Complaint.toError spanOf
  split
  · next none => rw [none]; rfl
  · next token some => rw [some]; rfl

/-- The tokens stand one behind the other, and the end of the text behind them. -/
def Laid (finish : Span) (tokens : List Token) : Prop :=
  Ascending (tokens.map Token.span ++ [finish])

/-- A text is followed by an end mark, which stands where the text ends. -/
theorem Text.exists_mark {tokens : List Token} {mark : Token} (member : mark ∈ tokens)
    (ends : mark.kind = .endOfSource) :
    ∃ first, (Text.of tokens).tokens ++ [first] <+: Token.withoutComments tokens ∧
      first.span = (Text.of tokens).finish := by
  have present : mark ∈ Token.withoutComments tokens := by
    simp [Token.withoutComments, member, ends, Token.Kind.isComment]
  cases found : (Token.withoutComments tokens).find? (·.kind.isEnd) with
  | none =>
      have absent := List.find?_eq_none.mp found mark present
      simp [ends, Token.Kind.isEnd] at absent
  | some first =>
      refine ⟨first, ?_, by simp only [Text.of, found]⟩
      have behind := (List.find?_eq_head?_dropWhile_not _ _).symm.trans found
      obtain ⟨rest, same⟩ := List.head?_eq_some_iff.mp behind
      refine ⟨rest, ?_⟩
      rw [List.append_assoc, List.singleton_append, ← same]
      exact List.takeWhile_append_dropWhile

section Laid

variable {finish : Span} {tokens : List Token}

/-- What comes next stands among what is left. -/
theorem spanOf_head_mem (point : List Token) :
    spanOf finish point.head? ∈ point.map Token.span ++ [finish] := by
  cases point with
  | nil => exact List.mem_singleton_self _
  | cons token rest => exact List.mem_cons_self

namespace Laid

theorem suffix (laid : Laid finish tokens) {point : List Token} (later : point <:+ tokens) :
    Laid finish point := by
  obtain ⟨read, rfl⟩ := later
  rw [Laid, List.map_append, List.append_assoc] at laid
  exact (List.pairwise_append.mp laid).2.1

/-- What is read stands in front of what comes next. -/
theorem before_point {token : Token} {after point : List Token}
    (laid : Laid finish (token :: after)) (later : point <:+ after) :
    token.span.Before (spanOf finish point.head?) := by
  obtain ⟨read, rfl⟩ := later
  refine (List.pairwise_cons.mp laid).1 _ ?_
  show spanOf finish point.head? ∈ (read ++ point).map Token.span ++ [finish]
  rw [List.map_append, List.append_assoc]
  exact List.mem_append_right _ (spanOf_head_mem point)

/-- A later point stands no further in front. -/
theorem not_before_point (laid : Laid finish tokens)
    {later earlier : List Token} (former : earlier <:+ tokens) (latter : later <:+ earlier) :
    ¬ (spanOf finish later.head?).Before (spanOf finish earlier.head?) := by
  cases earlier with
  | nil =>
      obtain rfl := List.suffix_nil.mp latter
      exact Span.not_before_self _
  | cons token rest =>
      rcases List.suffix_cons_iff.mp latter with rfl | inside
      · exact Span.not_before_self _
      · exact Span.not_before_of_before (before_point (laid.suffix former) inside)

/-- A token is followed by the same tokens wherever it is met. -/
theorem eq_of_suffix (laid : Laid finish tokens) {token : Token}
    {after other : List Token} (one : token :: after <:+ tokens) (two : token :: other <:+ tokens) :
    after = other := by
  have apart {shorter longer : List Token} (former : token :: longer <:+ tokens)
      (latter : token :: shorter <:+ longer) : False :=
    Span.not_before_self _ (before_point (laid.suffix former) latter)
  rcases List.suffix_or_suffix_of_suffix one two with inside | inside
  · rcases List.suffix_cons_iff.mp inside with same | within
    · exact (List.cons.inj same).2
    · exact (apart two within).elim
  · rcases List.suffix_cons_iff.mp inside with same | within
    · exact (List.cons.inj same).2.symm
    · exact (apart one within).elim

/-- No two tokens stand at one place. -/
theorem eq_of_span (laid : Laid finish tokens) {first second : Token} (one : first ∈ tokens)
    (two : second ∈ tokens) (same : first.span = second.span) : first = second := by
  have apart : (tokens.map Token.span).Nodup := by
    refine (List.pairwise_append.mp laid).1.imp ?_
    rintro span _ before rfl
    exact Span.not_before_self span before
  exact List.inj_on_of_nodup_map apart one two same

end Laid

/-- What is complained of later is not complained of at an earlier place. -/
theorem Recorded.inOrder_append {middle rest : List Token} {first second : List Complaint}
    (former : Recorded tokens first middle) (latter : Recorded middle second rest)
    (laid : Laid finish tokens) :
    InOrder ((first ++ second).map fun complaint => spanOf finish complaint.token) ↔
      InOrder (first.map fun complaint => spanOf finish complaint.token) ∧
        InOrder (second.map fun complaint => spanOf finish complaint.token) := by
  have across : ∀ earlier ∈ first, ∀ later ∈ second,
      ¬ (spanOf finish later.token).Before (spanOf finish earlier.token) := by
    intro earlier inFirst later inSecond
    obtain ⟨point, behind, here, about⟩ := former.exists_point inFirst
    obtain ⟨further, _, there, aboutLater⟩ := latter.exists_point inSecond
    rw [about, aboutLater]
    exact laid.not_before_point here (there.trans behind)
  rw [List.map_append]
  refine List.pairwise_append.trans ⟨fun ⟨one, two, _⟩ => ⟨one, two⟩, fun ⟨one, two⟩ =>
    ⟨one, two, fun _ front _ back => ?_⟩⟩
  obtain ⟨earlier, inFirst, rfl⟩ := List.mem_map.mp front
  obtain ⟨later, inSecond, rfl⟩ := List.mem_map.mp back
  exact across earlier inFirst later inSecond

/-- An invalid target is noted in order only if nothing is noted in its value. -/
theorem Recorded.inOrder_target_iff {equals : Token} {after rest : List Token}
    {notes : List Complaint} (inner : Recorded after notes rest)
    (laid : Laid finish (equals :: after)) :
    InOrder ((notes ++ [Complaint.mk .assignmentTarget (some equals)]).map
        fun complaint => spanOf finish complaint.token) ↔
      notes = [] := by
  constructor
  · intro ordered
    -- A complaint about the value stands behind the `=`, but comes first.
    apply List.eq_nil_iff_forall_not_mem.mpr
    intro complaint member
    obtain ⟨point, _, there, about⟩ := inner.exists_point member
    rw [List.map_append] at ordered
    refine (List.pairwise_append.mp ordered).2.2 (spanOf finish complaint.token)
      (List.mem_map.mpr ⟨complaint, member, rfl⟩) equals.span (List.mem_singleton_self _) ?_
    rw [about]
    exact laid.before_point there
  · rintro rfl
    exact List.pairwise_singleton _ _

/-- The complaints are in order exactly if nothing is noted in the value of an invalid target. -/
theorem Recorded.inOrder_iff {rest : List Token} {complaints : List Complaint}
    (recorded : Recorded tokens complaints rest)
    (laid : Laid finish tokens) :
    InOrder (complaints.map fun complaint => spanOf finish complaint.token) ↔
      ∀ equals after, equals :: after <:+ tokens →
        ⟨.assignmentTarget, some equals⟩ ∈ complaints →
          (expression (boundFor after) after).notes = [] := by
  induction recorded with
  | skipped read rest => exact iff_of_true List.Pairwise.nil fun _ _ _ member => nomatch member
  | here tokens ordinary bounded =>
      refine iff_of_true (List.pairwise_singleton _ _) fun equals after _ member => ?_
      have same := List.mem_singleton.mp member
      exact absurd (Complaint.mk.inj same).1.symm ordinary
  | @append tokens middle rest first second former latter inFormer inLatter =>
      rw [former.inOrder_append latter laid, inFormer laid,
        inLatter (laid.suffix former.suffix)]
      constructor
      · rintro ⟨inFirst, inSecond⟩ equals after within member
        rcases List.mem_append.mp member with member | member
        · exact inFirst equals after within member
        · obtain ⟨point, _, there, about⟩ := latter.exists_point member
          obtain ⟨other, rfl⟩ := List.head?_eq_some_iff.mp about.symm
          obtain rfl := laid.eq_of_suffix within (there.trans former.suffix)
          exact inSecond equals after there member
      · intro inBoth
        refine ⟨fun equals after within member => ?_, fun equals after within member => ?_⟩
        · exact inBoth equals after within (List.mem_append_left _ member)
        · exact inBoth equals after (within.trans former.suffix) (List.mem_append_right _ member)
  | @target equals after rest value notes reads inner inInner =>
      have own : notes = [] ↔ (expression (boundFor after) after).notes = [] := by rw [reads]
      rw [inner.inOrder_target_iff laid, own]
      constructor
      · intro none other behind within member
        -- With nothing noted in the value, what is complained of is this target itself.
        rw [own.mpr none] at member
        obtain ⟨_, same⟩ := Complaint.mk.inj (List.mem_singleton.mp member)
        obtain rfl := Option.some.inj same
        obtain rfl := laid.eq_of_suffix within List.suffix_rfl
        exact none
      · intro none
        exact none equals after List.suffix_rfl
          (List.mem_append_right _ (List.mem_singleton_self _))

end Laid

end Grammar

open Grammar

/-! ## Texts -/

/-- What matters to the grammar stands one behind the other, and the end of the text behind it. -/
theorem Scan.laid (source : String) :
    Grammar.Laid (Grammar.Text.of (Scan.of source).tokens).finish
      (Grammar.Text.of (Scan.of source).tokens).tokens := by
  have whole : Ascending ((Token.withoutComments (Scan.of source).tokens).map Token.span) :=
    (Scan.ascending_items source).sublist
      ((List.filter_sublist.map Token.span).trans (Scan.tokens_sublist _))
  obtain ⟨mark, present, ends⟩ := (Scans.ofString source).exists_mark
  obtain ⟨first, part, finish⟩ := Grammar.Text.exists_mark present ends
  have spans := whole.sublist (part.sublist.map Token.span)
  rwa [List.map_append, List.map_singleton, finish] at spans


/-- The syntax errors are the complaints about the text. -/
theorem Program.syntaxErrors_eq (tokens : List Token) :
    Program.syntaxErrors tokens =
      (declarations (boundFor (Text.of tokens).tokens) (Text.of tokens).tokens.length
        (Text.of tokens).tokens).complaints.map (Complaint.toError (Text.of tokens).finish) := by
  simp only [syntaxErrors, Program.ofTokens]
  split
  · next read =>
      split at read
      · next none => rw [none]; rfl
      · cases read
  · next errors read =>
      split at read
      · cases read
      · next some => rw [Except.error.inj read]

/-- Syntax errors are in order exactly if nothing is noted in the value of any assignment whose
target is complained of. -/
theorem Program.syntaxErrors_inOrder_iff {tokens : List Token}
    (laid : Laid (Text.of tokens).finish (Text.of tokens).tokens) :
    InOrder ((Program.syntaxErrors tokens).map SyntaxError.span) ↔
      ∀ equals after, equals :: after <:+ (Text.of tokens).tokens →
        ⟨.assignmentTarget, equals.span, .atLexeme equals.lexeme⟩ ∈ Program.syntaxErrors tokens →
          (expression (boundFor after) after).notes = [] := by
  obtain ⟨rest, recorded⟩ :=
    declarations_recorded (Text.of tokens).tokens.length
      (Nat.le_refl (boundFor (Text.of tokens).tokens))
  have spans : (Program.syntaxErrors tokens).map SyntaxError.span =
      (declarations (boundFor (Text.of tokens).tokens) (Text.of tokens).tokens.length
        (Text.of tokens).tokens).complaints.map fun complaint =>
          spanOf (Text.of tokens).finish complaint.token := by
    rw [syntaxErrors_eq, List.map_map]
    exact List.map_congr_left fun complaint _ => span_toError _ complaint
  rw [spans, recorded.inOrder_iff laid, syntaxErrors_eq]
  refine forall₃_congr fun equals after within =>
    imp_congr_left ⟨fun noted => ?_, fun reported => ?_⟩
  · exact List.mem_map.mpr ⟨_, noted, rfl⟩
  · obtain ⟨complaint, noted, same⟩ := List.mem_map.mp reported
    obtain ⟨point, _, there, about⟩ := recorded.exists_point noted
    cases point with
    | nil =>
        have atEnd : complaint.token = none := about
        simp [Complaint.toError, atEnd] at same
    | cons token rest =>
        have atToken : complaint.token = some token := about
        simp only [Complaint.toError, atToken, SyntaxError.mk.injEq] at same
        obtain ⟨cause, span, _⟩ := same
        obtain rfl := laid.eq_of_span (there.subset List.mem_cons_self)
          (within.subset List.mem_cons_self) span
        obtain ⟨_, _⟩ := complaint
        cases cause
        cases atToken
        exact noted

end Lox
