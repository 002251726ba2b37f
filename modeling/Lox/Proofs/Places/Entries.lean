import Lox.Command
import Lox.Proofs.Places.Excerpt

/-!
Contract: diagnostics of a conversation, and the entries they show in.

An entry at the prompt is complained of with excerpts of its own text. That is right for all that
is wrong with the text or the names of the entry, and for a fault in its own code. But an entry
may call what an earlier one has declared, and a fault in there keeps the place it has in the
text of the earlier entry, which the excerpt does not show.

Whatever is reported comes from one of the two: it follows where the program of the entry is
moved, or it stays. What follows stands at a token of the entry, and what stays at a token of an
earlier one.

Main statement: `Session.entry_points`.

Owns: moved sessions, entries and where what is reported of them stands. Does not own: excerpts.
-/

set_option autoImplicit false

namespace Lox

open Grammar

/-- The report with its diagnostics at other places. -/
def Report.moved (move : Span → Span) (report : Report) : Report :=
  { report with diagnostics := report.diagnostics.map (Diagnostic.moved move) }

/-- The session with the functions of its world at other places. -/
def Session.moved (move : Span → Span) (session : Session) : Session :=
  { session with world := session.world.moved move #[] }

/-- Where the tokens of a source stand that matter to the grammar. -/
def textSpans (source : String) : List Span :=
  (Text.of (Scan.of source).tokens).tokens.map Token.span

instance (scan : Scan) (span : Span) : Decidable (scan.Shows span) :=
  inferInstanceAs (Decidable (_ ∨ _))

theorem Scan.shows_of_mem_textSpans {source : String} {span : Span}
    (member : span ∈ textSpans source) :
    (Scan.of source).Shows span := by
  obtain ⟨token, inText, stands⟩ := List.mem_map.mp member
  exact .inl ⟨token, Text.tokens_subset _ inText, stands⟩

/-- The program of an entry stays where the tokens of the entry do. -/
theorem Request.program_moved_of_stays {move : Span → Span} {source : String} {program : Program}
    (read : (Request.enter source).program? = some program)
    (stays : ∀ span ∈ textSpans source, move span = span) : program.moved move = program := by
  have tokensStay :
      ∀ token ∈ (Text.of (Scan.of source).tokens).tokens, move token.span = token.span :=
    fun token member => stays token.span (List.mem_map_of_mem member)
  simp only [program?] at read
  split at read
  · next expr bare =>
      obtain rfl := Option.some.inj read
      obtain ⟨_, parsed⟩ := bareExpression?_eq_some_iff.mp bare
      have same := (Expr.derives_of_ofTokens parsed).expression_moved_of_stays tokensStay
      have place : move expr.span = expr.span :=
        (expr.moved_span move).symm.trans (congrArg Expr.span same)
      simp only [Program.moved, Program.printing, movedStmts, Stmt.moved, same, place]
  · obtain ⟨_, parsed⟩ := ParsedSource.program_of_eq_some_iff.mp read
    exact (Program.derives_of_ofTokens parsed).moved_of_stays tokensStay

namespace Session

variable {session : Session} {line : Nat}

/-! ## Moved sessions -/

theorem reportOn_moved (move : Span → Span) (verdict : Verdict) (output : String) :
    reportOn (verdict.moved move) output = (reportOn verdict output).moved move := by
  cases verdict <;> rfl

/-- A moved program in a moved session is run to the moved end. -/
theorem execute_moved (move : Span → Span) (budget : Nat) (follows : session.world.Follows move)
    (works : session.world.outlet = .working) (clean : session.resolver.errors = [])
    (program : Program) :
    (session.moved move).execute budget (program.moved move) =
      ((session.execute budget program).1.moved move,
        (session.execute budget program).2.moved move) := by
  have resolves : (session.moved move).resolver.resolve (program.moved move) = _ :=
    Resolver.resolve_moved move clean program
  by_cases accepted : (session.resolver.resolve program).errors = []
  · have acceptedMoved :
        ((session.moved move).resolver.resolve (program.moved move)).errors = [] := by
      rw [resolves, accepted, List.map_nil]
    have followsCleared : session.world.clearOutput.Follows move := follows
    have ends : session.world.clearOutput.EndsInPlace move :=
      World.endsInPlace_of_working move works
    have ran := World.interpret_moved move #[] budget followsCleared ends
      (session.resolver.resolve program).program.statements
    rw [execute_of_accepted budget acceptedMoved, execute_of_accepted budget accepted, resolves]
    have cleared :
        (session.moved move).world.clearOutput = session.world.clearOutput.moved move #[] := rfl
    simp only [Program.moved, cleared, ran, World.output_moved, reportOn_moved, List.map_nil,
      String.join_nil, String.empty_append]
    rfl
  · have rejectedMoved :
        ((session.moved move).resolver.resolve (program.moved move)).errors ≠ [] := by
      rw [resolves]
      exact fun none => accepted (List.map_eq_nil_iff.mp none)
    rw [execute_of_rejected budget rejectedMoved, execute_of_rejected budget accepted, resolves]
    simp only [Report.moved, List.map_map]
    rfl

/-! ## Sessions that stay -/

/-- The session stays under the move, and nothing in it looks at places. -/
structure Still (move : Span → Span) (session : Session) : Prop where
  stays : session.moved move = session
  follows : session.world.Follows move
  works : session.world.outlet = .working
  clean : session.resolver.errors = []

namespace Still

variable {move : Span → Span}

theorem execute (still : session.Still move) (budget : Nat) {program : Program}
    (stays : program.moved move = program) :
    (session.execute budget program).2.Still move ∧
      (session.execute budget program).1.moved move = (session.execute budget program).1 := by
  have moved := execute_moved move budget still.follows still.works still.clean program
  rw [still.stays, stays] at moved
  obtain ⟨report, after⟩ := Prod.mk.inj moved
  have host : (session.execute budget program).2.world.host = session.world.host :=
    execute_host budget program
  have clean : (session.execute budget program).2.resolver.errors = [] := by
    rw [resolver_execute]
    rfl
  exact ⟨⟨after.symm, still.follows.of_host host,
    (congrArg Host.outlet host).trans still.works, clean⟩, report.symm⟩

theorem answer (still : session.Still move) (budget : Nat) {source : String}
    (stays : ∀ span ∈ textSpans source, move span = span) :
    (session.answer budget (.enter source)).2.Still move := by
  cases read : (Request.enter source).program? with
  | none =>
      rcases answer_of_malformed budget read with ⟨report, same⟩ | ⟨_, _, _, impossible⟩
      · rw [same]
        exact still
      · cases impossible
  | some program =>
      rw [answer_of_program? budget read]
      exact (still.execute budget (Request.program_moved_of_stays read stays)).1

theorem serve (still : session.Still move) (budget : Nat) {entries : List String}
    (stays : ∀ entry ∈ entries, ∀ span ∈ textSpans entry, move span = span) :
    (serve (Session.answer budget) (entries.map .enter) session).2.Still move := by
  induction entries generalizing session with
  | nil => exact still
  | cons entry rest inductionHypothesis =>
      exact inductionHypothesis (still.answer budget (stays entry List.mem_cons_self))
        fun other member => stays other (List.mem_cons_of_mem entry member)

theorem new (move : Span → Span) (callLimit : Nat) (clock : Clock) :
    (Session.new callLimit .working clock).Still move where
  stays := congrArg (Session.mk · _) (World.moved_initial move callLimit clock)
  follows := World.follows_initial move callLimit .working clock
  works := rfl
  clean := rfl

end Still

/-! ## Where reports come from -/

/-- One verdict stands for all runs of an accepted program, wherever it is moved. -/
theorem report_told (placeless : session.world.Placeless line)
    (clean : session.resolver.errors = []) (budget : Nat) {program : Program}
    (accepted : (session.resolver.resolve program).errors = []) :
    ∃ (verdict : Verdict) (output : String), ∀ move : Span → Span,
      (session.execute budget (program.moved move)).1 =
        reportOn (verdict.moved (Span.told line move)) output := by
  obtain ⟨verdict, reached, told⟩ := World.interpret_told line budget
    (show session.world.clearOutput.Placeless line from placeless)
    (session.resolver.resolve program).program.statements
  refine ⟨verdict, reached.output, fun move => ?_⟩
  have resolves := Resolver.resolve_moved move clean program
  have acceptedMoved : (session.resolver.resolve (program.moved move)).errors = [] := by
    rw [resolves, accepted, List.map_nil]
  have goes := told move #[]
  rw [World.moved_id] at goes
  rw [execute_of_accepted budget acceptedMoved, resolves]
  simp only [Program.moved, goes, World.output_moved]
  simp

/-- A program that is rejected is rejected wherever it is moved, for the same reasons. -/
theorem report_moved_of_rejected (clean : session.resolver.errors = []) (budget : Nat)
    {program : Program} (rejected : (session.resolver.resolve program).errors ≠ [])
    (move : Span → Span) :
    (session.execute budget (program.moved move)).1 =
      (session.execute budget program).1.moved move := by
  have resolves := Resolver.resolve_moved move clean program
  have rejectedMoved : (session.resolver.resolve (program.moved move)).errors ≠ [] := by
    rw [resolves]
    exact fun none => rejected (List.map_eq_nil_iff.mp none)
  rw [execute_of_rejected budget rejectedMoved, execute_of_rejected budget rejected, resolves]
  simp only [Report.moved, List.map_map]
  rfl

/-- What is reported follows where the program is moved, or it stays. -/
theorem reportsText_or_reportsEarlier (placeless : session.world.Placeless line)
    (clean : session.resolver.errors = []) (budget : Nat) (program : Program) :
    session.ReportsText budget program ∨
      session.ReportsEarlier budget program ∧
        (session.execute budget program).1.status ≠ .staticError := by
  by_cases accepted : (session.resolver.resolve program).errors = []
  · obtain ⟨verdict, output, ran⟩ := report_told placeless clean budget accepted
    have alone := ran id
    rw [Program.moved_id] at alone
    unfold ReportsText ReportsEarlier
    simp only [ran, alone]
    refine (diagnostics_follow_or_stay line verdict).imp (fun follows move => ?_)
      fun stays => ⟨fun move => ?_, status_reportOn_ne _ _⟩
    · exact follows move _ _
    · exact stays move _ _
  · refine .inl fun move => ?_
    rw [report_moved_of_rejected clean budget accepted]
    rfl

/-- Wherever a program is moved, the run ends in the same way with the same output. -/
theorem status_output_moved (placeless : session.world.Placeless line)
    (clean : session.resolver.errors = []) (budget : Nat) (program : Program)
    (move : Span → Span) :
    (session.execute budget (program.moved move)).1.status =
        (session.execute budget program).1.status ∧
      (session.execute budget (program.moved move)).1.output =
        (session.execute budget program).1.output := by
  by_cases accepted : (session.resolver.resolve program).errors = []
  · obtain ⟨verdict, output, ran⟩ := report_told placeless clean budget accepted
    have alone := ran id
    rw [Program.moved_id] at alone
    rw [ran, alone, output_reportOn, output_reportOn]
    exact ⟨status_reportOn_moved _ _ verdict _ _, rfl⟩
  · rw [report_moved_of_rejected clean budget accepted]
    exact ⟨rfl, rfl⟩

/-- What is reported of the text of an entry stands at its tokens. -/
theorem ReportsText.span_mem {budget : Nat} {source : String} {program : Program}
    (text : session.ReportsText budget program)
    (read : (Request.enter source).program? = some program) {diagnostic : Diagnostic}
    (member : diagnostic ∈ (session.execute budget program).1.diagnostics) :
    diagnostic.span ∈ textSpans source := by
  have stays := Request.program_moved_of_stays read fun span member =>
    Span.keptAmong_eq_self_iff.mpr member
  have same := text (Span.keptAmong (textSpans source))
  rw [stays] at same
  have own := List.map_inj_left.mp ((List.map_id _).trans same) diagnostic member
  exact Span.keptAmong_eq_self_iff.mp (congrArg Diagnostic.span own).symm

/-- What is reported of an earlier text stands at tokens under which the session stays. -/
theorem ReportsEarlier.span_mem {budget : Nat} {program : Program} {spans : List Span}
    (earlier : session.ReportsEarlier budget program)
    (still : ∀ move : Span → Span, (∀ span ∈ spans, move span = span) → session.Still move)
    {diagnostic : Diagnostic}
    (member : diagnostic ∈ (session.execute budget program).1.diagnostics) :
    diagnostic.span ∈ spans := by
  -- The program is moved away as a whole, to a place where the diagnostic does not stand.
  let away := diagnostic.span.lowered 1
  have kept := still (Span.keptAmong (away :: spans)) fun span among =>
    Span.keptAmong_eq_self_iff.mpr (List.mem_cons_of_mem away among)
  have elsewhere : (program.moved fun _ => away).moved (Span.keptAmong (away :: spans)) =
      program.moved fun _ => away := by
    have fixed : Span.keptAmong (away :: spans) away = away :=
      Span.keptAmong_eq_self_iff.mpr List.mem_cons_self
    rw [Program.moved_moved]
    exact congrArg (program.moved ·) (funext fun _ => fixed)
  have same := (kept.execute budget elsewhere).2
  have diagnostics : (session.execute budget program).1.diagnostics.map
      (Diagnostic.moved (Span.keptAmong (away :: spans))) =
        (session.execute budget program).1.diagnostics := by
    rw [← earlier fun _ => away]
    exact congrArg Report.diagnostics same
  have own := List.map_inj_left.mp (diagnostics.trans (List.map_id _).symm) diagnostic member
  rcases List.mem_cons.mp (Span.keptAmong_eq_self_iff.mp (congrArg Diagnostic.span own)) with
    there | among
  · exact absurd (congrArg Span.line there.symm) (Nat.succ_ne_self _)
  · exact among

end Session

/-- An excerpt of the source shows what the diagnostic is about: its span is that of a token or a
lexical error of the source, and the carets are below the characters that it covers. -/
def Diagnostic.ShowsIn (source : String) (diagnostic : Diagnostic) : Prop :=
  (Scan.of source).Shows diagnostic.span ∧
    ∃ above front covered back below, diagnostic.span.Stands source above front covered back below ∧
      diagnostic.render source = diagnostic.framed (String.ofList (front ++ covered ++ back))
        (String.ofList (front.map fun character => if character = '\t' then '\t' else ' '))
        (String.ofList (List.replicate (max covered.length 1) '^'))

theorem Scan.Shows.showsIn {source : String} {diagnostic : Diagnostic}
    (shows : (Scan.of source).Shows diagnostic.span) : diagnostic.ShowsIn source := by
  obtain ⟨above, front, covered, back, below, stands, _⟩ := shows.exists_stands
  exact ⟨shows, above, front, covered, back, below, stands, Diagnostic.render_of_stands stands⟩

namespace Session

/-- An entry that is read as a program is run as that program. -/
theorem report_of_read {session : Session} (budget : Nat) {source : String} {program : Program}
    (read : (Request.enter source).program? = some program) :
    (session.runEntry budget source).1 = (session.execute budget program).1 := by
  have answered : session.answer budget (.enter source) =
      (some (session.execute budget program).1, (session.execute budget program).2) :=
    answer_of_program? budget read
  exact Option.some.inj (congrArg Prod.fst answered)

/-- Of an entry that is not, all that is wrong with its text is reported. -/
theorem diagnostics_of_malformed {session : Session} (budget : Nat) {source : String}
    (malformed : (Request.enter source).program? = none) :
    (session.runEntry budget source).1.diagnostics = textErrors source := by
  have bare : bareExpression? source = none := by
    cases bare : bareExpression? source with
    | none => rfl
    | some expr => simp [Request.program?, bare] at malformed
  have unread : (ParsedSource.of source).program = none := by
    simpa [Request.program?, bare] using malformed
  simp only [runEntry, bare, run, unread, ParsedSource.diagnostics_of]

/-- What is reported of an entry is shown by its excerpt, if it comes from the text of the entry.
So it is for all that is wrong with that text and with its names. A fault may also come from an
earlier entry, and then it stands at a token of such a one. -/
theorem entry_points {session : Session} {callLimit budget : Nat} {clock : Clock}
    {entries : List String}
    (reached : session =
      (serve (answer budget) (entries.map .enter) (new callLimit .working clock)).2)
    (source : String) :
    let report := (session.runEntry budget source).1
    (∀ program, (Request.enter source).program? = some program →
      session.ReportsText budget program ∨
        session.ReportsEarlier budget program ∧ report.status ≠ .staticError) ∧
    ∀ diagnostic ∈ report.diagnostics,
      diagnostic.ShowsIn source ∨
        ∃ program, (Request.enter source).program? = some program ∧
          session.ReportsEarlier budget program ∧ ¬ session.ReportsText budget program ∧
          ∃ earlier ∈ entries, diagnostic.ShowsIn earlier := by
  intro report
  have placeless : session.Placeless 0 := by
    rw [reached]
    refine (placeless_new 0 callLimit clock).serve budget fun request member => ?_
    obtain ⟨entry, _, rfl⟩ := List.mem_map.mp member
    trivial
  have still (move : Span → Span) (stays : ∀ span ∈ entries.flatMap textSpans, move span = span) :
      session.Still move := by
    rw [reached]
    exact (Still.new move callLimit clock).serve budget fun entry member span among =>
      stays span (List.mem_flatMap.mpr ⟨entry, member, among⟩)
  have clean : session.resolver.errors = [] := (still id fun _ _ => rfl).clean
  refine ⟨fun program read => ?_, fun diagnostic member => ?_⟩
  · rw [show report = _ from report_of_read budget read]
    exact reportsText_or_reportsEarlier placeless.natives clean budget program
  · cases read : (Request.enter source).program? with
    | none =>
        rw [show report.diagnostics = _ from diagnostics_of_malformed budget read] at member
        exact .inl (textErrors_span member).showsIn
    | some program =>
        rw [show report = _ from report_of_read budget read] at member
        rcases reportsText_or_reportsEarlier placeless.natives clean budget program with
          text | ⟨earlier, _⟩
        · exact .inl (Scan.shows_of_mem_textSpans (text.span_mem read member)).showsIn
        -- What stays wherever the present program is put stands in an earlier text.
        · obtain ⟨entry, among, shown⟩ := List.mem_flatMap.mp (earlier.span_mem still member)
          have other : ¬ session.ReportsText budget program := fun text =>
            text.not_reportsEarlier (List.ne_nil_of_mem member) earlier
          exact .inr ⟨program, rfl, earlier, other, entry, among,
            (Scan.shows_of_mem_textSpans shown).showsIn⟩

/-- A class with a getter that fails in the third line. -/
def failingGetter : String := "class A \x7b\n  get \x7b\n    return -nil;\n  \x7d\n\x7d"

/-- A getter of an earlier entry fails where it stands in that entry. -/
theorem entry_points_getter :
    let session := (serve (answer 100) ([failingGetter].map .enter) (new 10 .working (.still 0))).2
    let found : Diagnostic := ⟨.runtime, ⟨3, 12, 1⟩, "", "Operand must be a number."⟩
    (session.runEntry 100 "A().get;").1.diagnostics = [found] ∧
      ¬ found.ShowsIn "A().get;" ∧ found.ShowsIn failingGetter := by
  intro session found
  have reported : (session.runEntry 100 "A().get;").1.diagnostics = [found] := by decide +kernel
  have absent : ¬ (Scan.of "A().get;").Shows found.span := by decide +kernel
  refine ⟨reported, fun shown => absent shown.1, ?_⟩
  have reached : session =
      (serve (answer 100) ([failingGetter].map .enter) (new 10 .working (.still 0))).2 := rfl
  rcases (entry_points reached "A().get;").2 found
      (by rw [reported]; exact List.mem_singleton_self _) with
    shown | ⟨_, _, _, _, entry, member, shown⟩
  · exact absurd shown.1 absent
  · obtain rfl := List.mem_singleton.mp member
    exact shown

/-- A function that fails in the third line. -/
def failingFunction : String := "fun f() \x7b\n  return\n    -nil;\n\x7d\n"

/-- The entry that calls the function has no third line. -/
theorem callOfEarlier_not_shown :
    let session := (serve (answer 100) ([failingFunction].map .enter) (new 10 .working (.still 0))).2
    ∃ diagnostic ∈ (session.runEntry 100 "f();\n").1.diagnostics,
      ¬ (Scan.of "f();\n").Shows diagnostic.span ∧
        diagnostic.render "f();\n" =
          "error[runtime]: Operand must be a number.\n --> line 3:5\n  |\n3 | \n  | ^\n" := by
  intro session
  have reported : (session.runEntry 100 "f();\n").1.diagnostics =
      [⟨.runtime, ⟨3, 5, 1⟩, "", "Operand must be a number."⟩] := by decide +kernel
  refine ⟨_, by rw [reported]; exact List.mem_singleton_self _, ?_, ?_⟩
  · decide +kernel
  · decide +kernel

end Session

end Lox
