import Lox.Proofs.Lexeme.Covered
import Lox.Proofs.Places.Lines
import Lox.Proofs.Places.Own

/-!
Contract: excerpts of the source that a diagnostic is about.

What is reported of the first source of a session stands at a token or at a lexical error of
that source. The span of either covers characters of one line, and the end mark covers none at
the very end. So the excerpt shows the line of the token, and the carets are below it.

Main statement: `Session.diagnostic_points`.

Owns: the stretches of source under spans, excerpts. Does not own: what is reported.
-/

set_option autoImplicit false

namespace Lox

/-! ## Items in a source -/

namespace Item

/-- Where an item stands. -/
def span : Item → Span
  | .ok token => token.span
  | .error error => error.span

/-- Whether the item is a comment. -/
def isComment : Item → Bool
  | .ok token => token.kind.isComment
  | .error _ => false

/-- The span of the item covers characters of one line of the source. Only the end mark, at
the end of the source, covers none. -/
def CoversIn (source : List Char) (item : Item) : Prop :=
  ∃ before covered behind, source = before ++ (covered ++ behind) ∧
    item.span = (Position.start.afterAll before).span covered.length ∧
    (∀ character ∈ covered, character ∉ Lexeme.breaks) ∧
    (covered = [] → behind = [] ∧ ∃ mark, item = .ok mark ∧ mark.kind = .endOfSource)

end Item

namespace Stream

theorem span_itemOf (lexeme : Lexeme) (position : Position) (covered : List Char) :
    Item.span (itemOf lexeme position covered) = position.span lexeme.marked := by
  unfold itemOf
  split <;> rfl

theorem isComment_itemOf {lexeme : Lexeme} {position : Position} {covered : List Char}
    (notComment : Item.isComment (itemOf lexeme position covered) = false) :
    lexeme.outcome ≠ .ok .comment := by
  intro outcome
  simp [itemOf, outcome, Item.isComment, Token.Kind.isComment] at notComment

end Stream

/-- The items of a source cover stretches of it. -/
theorem Scans.coversIn {position : Position} {text : List Char} {items : List Item}
    (scans : Scans position text items) {source : List Char} (before : List Char)
    (whole : source = before ++ text) (there : position = Position.start.afterAll before) :
    ∀ item ∈ items, item.isComment = false → item.CoversIn source := by
  induction scans generalizing before with
  | @finish position reached text skips =>
      intro item member _
      obtain rfl := List.mem_singleton.mp member
      obtain ⟨space, same, reaches, _⟩ := Stream.skipSpace_spec skips
      refine ⟨before ++ space, [], [], ?_, ?_, fun _ => nofun, fun _ => ⟨rfl, _, rfl, rfl⟩⟩
      · rw [whole, same, List.append_assoc]
        rfl
      · rw [Position.afterAll_append, ← there, ← reaches]
        rfl
  | @lexeme position reached text rest first items skips others inductionHypothesis =>
      obtain ⟨space, same, reaches, _, solid⟩ := Stream.skipSpace_spec skips
      have start : reached = Position.start.afterAll (before ++ space) := by
        rw [Position.afterAll_append, ← there, ← reaches]
      have source' : source = (before ++ space) ++ (first :: rest) := by
        rw [whole, same, List.append_assoc]
      intro item member notComment
      obtain rfl | member := List.mem_cons.mp member
      · have inLine := Lexeme.inLine_at (solid first rfl) (Stream.isComment_itemOf notComment)
        have within := Lexeme.extent_le first rest
        have enough : ((first :: rest).take (Lexeme.at first rest).marked).length =
            (Lexeme.at first rest).marked := by
          have atMost := inLine.marked_le
          rw [List.length_take, List.length_cons]
          omega
        refine ⟨before ++ space, (first :: rest).take (Lexeme.at first rest).marked,
          (first :: rest).drop (Lexeme.at first rest).marked, ?_, ?_, inLine.unbroken, fun none => ?_⟩
        · rw [List.take_append_drop, source']
        · rw [Stream.span_itemOf, enough, start]
        · have some := inLine.marked_pos
          rw [← enough, none] at some
          cases some
      · refine inductionHypothesis (before ++ space ++
          (first :: rest.take (Lexeme.at first rest).extent)) ?_ ?_ item member notComment
        · rw [source', List.append_assoc _ (first :: _), List.cons_append, List.take_append_drop]
        · rw [Position.afterAll_append, ← start]

namespace Scan

/-- What a scan shows covers a stretch of the source. -/
theorem Shows.exists_stands {source : String} {span : Span} (shows : (Scan.of source).Shows span) :
    ∃ above front covered back below, span.Stands source above front covered back below ∧
      (covered = [] → ∃ mark ∈ (Scan.of source).tokens, mark.kind = .endOfSource ∧ mark.span = span) := by
  have item : ∃ item ∈ (Stream.ofString source).items, Item.isComment item = false ∧
      Item.span item = span := by
    obtain ⟨token, member, rfl⟩ | ⟨error, member, rfl⟩ := shows
    · obtain ⟨among, notComment⟩ := List.mem_filter.mp member
      exact ⟨.ok token, mem_tokens_ofItems.mp among, by simpa [Item.isComment] using notComment, rfl⟩
    · exact ⟨.error error, mem_errors_ofItems.mp member, rfl, rfl⟩
  obtain ⟨item, member, notComment, rfl⟩ := item
  obtain ⟨before, covered, behind, text, place, unbroken, empty⟩ :=
    (Scans.ofString source).coversIn [] rfl rfl item member notComment
  obtain ⟨above, front, back, below, _, _, stands⟩ :=
    Lox.exists_stands text unbroken fun none => (empty none).1
  rw [← place] at stands
  refine ⟨above, front, covered, back, below, stands, fun none => ?_⟩
  obtain ⟨_, mark, rfl, ends⟩ := empty none
  exact ⟨mark, mem_tokens_ofItems.mpr member, ends, rfl⟩

end Scan

/-- The text of a diagnostic with this line, this padding below it and this under the span. -/
def Diagnostic.framed (diagnostic : Diagnostic) (line padding underline : String) : String :=
  let number := toString diagnostic.span.line
  let gutter := repeated number.length ' '
  "error[" ++ diagnostic.stage.label ++ "]: " ++ diagnostic.message ++ "\n" ++
    gutter ++ "--> line " ++ number ++ ":" ++ toString diagnostic.span.column ++ "\n" ++
    gutter ++ " |\n" ++
    number ++ " | " ++ line ++ "\n" ++
    gutter ++ " | " ++ padding ++ underline ++ "\n" ++
    match hintFor diagnostic.message with
    | none => ""
    | some hint => gutter ++ " |\n" ++ gutter ++ " = hint: " ++ hint ++ "\n"

theorem Diagnostic.render_eq_framed (source : String) (diagnostic : Diagnostic) :
    diagnostic.render source = diagnostic.framed (sourceLine source diagnostic.span.line)
      (underlinePadding (sourceLine source diagnostic.span.line) diagnostic.span.column)
      (carets diagnostic.span.length) := rfl

/-- An excerpt shows the line that the span stands in, and the span. -/
theorem Diagnostic.render_of_stands {source : String} {diagnostic : Diagnostic}
    {above front covered back below : List Char}
    (stands : diagnostic.span.Stands source above front covered back below) :
    diagnostic.render source = diagnostic.framed (String.ofList (front ++ covered ++ back))
      (String.ofList (front.map fun character => if character = '\t' then '\t' else ' '))
      (String.ofList (List.replicate (max covered.length 1) '^')) := by
  have length : diagnostic.span.length = covered.length := by rw [stands.place]
  rw [render_eq_framed, underlinePadding_of_stands stands, sourceLine_of_stands stands, carets,
    repeated, length]

namespace Session

/-- Whatever is reported of the first source of a session points into that source. Its span is
that of a token, comments left out, or of a lexical error. The excerpt shows the line that the
span stands in, padded by all that is in front of the span, with its tabs; and unless the span
is that of the end mark, the carets stay within the line. -/
theorem diagnostic_points (callLimit : Nat) (clock : Clock) (budget : Nat) (source : String) :
    ∀ diagnostic ∈ ((new callLimit .working clock).run budget source).1.diagnostics,
      (Scan.of source).Shows diagnostic.span ∧
      ∃ above front covered back below,
        diagnostic.span.Stands source above front covered back below ∧
        diagnostic.render source = diagnostic.framed (String.ofList (front ++ covered ++ back))
          (String.ofList (front.map fun character => if character = '\t' then '\t' else ' '))
          (String.ofList (List.replicate (max covered.length 1) '^')) ∧
        ((∃ mark ∈ (Scan.of source).tokens,
            mark.kind = .endOfSource ∧ mark.span = diagnostic.span) ∨
          front.length + max covered.length 1 ≤ (front ++ covered ++ back).length) := by
  intro diagnostic member
  have shows := diagnostic_span callLimit clock budget source member
  obtain ⟨above, front, covered, back, below, stands, empty⟩ := shows.exists_stands
  refine ⟨shows, above, front, covered, back, below, stands, Diagnostic.render_of_stands stands, ?_⟩
  by_cases none : covered = []
  · exact .inl (empty none)
  · have some := List.length_pos_iff.mpr none
    refine .inr ?_
    simp only [List.length_append]
    omega

/-- The fault of an operand in the second line stands at its operator. -/
theorem diagnostic_points_operand :
    let source := "// none\r\n\tprint -nil;\r\n"
    let found : Diagnostic := ⟨.runtime, ⟨2, 8, 1⟩, "", "Operand must be a number."⟩
    ((new 10 .working (.still 0)).run 100 source).1.diagnostics = [found] ∧
      (Scan.of source).Shows found.span ∧
      ∃ above front covered back below, found.span.Stands source above front covered back below := by
  intro source found
  have reported : ((new 10 .working (.still 0)).run 100 source).1.diagnostics = [found] := by
    decide +kernel
  obtain ⟨shows, above, front, covered, back, below, stands, _⟩ :=
    diagnostic_points 10 (.still 0) 100 source found (by rw [reported]; exact List.mem_singleton_self _)
  exact ⟨reported, shows, above, front, covered, back, below, stands⟩

/-- The padding keeps the tab, and the carriage return is no part of the line. -/
example : Diagnostic.render "// none\r\n\tprint -nil;\r\n"
    ⟨.runtime, ⟨2, 8, 1⟩, "", "Operand must be a number."⟩ =
      "error[runtime]: Operand must be a number.\n --> line 2:8\n  |\n2 | \tprint -nil;\n  | \t      ^\n" := by
  decide +kernel

end Session

end Lox
