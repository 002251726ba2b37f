import Lox.Proofs.Places.Entries
import Lox.Proofs.Places.Parsing
import Lox.Proofs.Spelling.Blurred

/-!
Contract: the layout of a source does not matter.

Two sources whose tokens agree in kind and text, comments left out, differ in blanks, line ends and
comments. They are read as trees that differ in places alone, or the same is wrong with them at
other places; and so they are bound and run. Sessions that differ in places alone are carried to
such sessions.

The natives must not tell places either: what looks alike to them without places must be answered
alike.

Main statement: `Session.layout_irrelevant`.

Owns: reports and sessions that differ in places alone, sources that differ in layout. Does not
own: the single stages.
-/

set_option autoImplicit false

namespace Lox

/-! ## Places blurred -/

/-- Leaves out where things stand. -/
def Spelling.placeless : Spelling := .moving fun _ => .nowhere

theorem Spelling.blurs_placeless : Spelling.placeless.Blurs := ⟨rfl, rfl⟩

theorem Value.respelled_placeless :
    Value.respelled .placeless = Value.moved fun _ => .nowhere :=
  funext (Value.respelled_moving _)

namespace World

/-- A world without places, and what its natives answer without places. -/
theorem respelled_placeless (world : World) : world.clearOutput.respelled (.blurred .placeless) =
    { world.shape with natives := world.shape.natives.map (Operation.blurred .placeless) } := by
  simp [respelled, shape, moved, clearOutput, Edition.blurred, Value.respelled_placeless]

theorem shape_eq_respelled_placeless (world : World) : world.shape =
    { (world.respelled (.blurred .placeless)).clearOutput with natives := world.natives } := by
  simp [respelled, World.shape, moved, clearOutput, Edition.blurred, Value.respelled_placeless]

theorem Overlooks.of_shape {world other : World} (overlooks : world.Overlooks .placeless)
    (alike : world.shape = other.shape) : other.Overlooks .placeless := by
  have natives : world.shape.natives = other.shape.natives := congrArg World.natives alike
  exact overlooks.of_natives natives.symm

/-- Programs that differ in places alone run alike in worlds that do. -/
theorem interpret_alike {world other : World} (overlooks : world.Overlooks .placeless)
    (alike : world.shape = other.shape) (budget : Nat) {stmts others : List Stmt}
    (same : movedStmts (fun _ => .nowhere) stmts = movedStmts (fun _ => .nowhere) others) :
    let ran := world.clearOutput.interpret budget stmts
    let ranOther := other.clearOutput.interpret budget others
    (ran.1.moved fun _ => .nowhere) = (ranOther.1.moved fun _ => .nowhere) ∧
      ran.2.output = ranOther.2.output ∧ ran.2.shape = ranOther.2.shape := by
  intro ran ranOther
  have blurred {world : World} (overlooks : world.Overlooks .placeless) (stmts : List Stmt) :
      (world.clearOutput.respelled (.blurred .placeless)).interpret budget
          (movedStmts (fun _ => .nowhere) stmts) =
        ((world.clearOutput.interpret budget stmts).1.moved fun _ => .nowhere,
          (world.clearOutput.interpret budget stmts).2.respelled (.blurred .placeless)) := by
    have here : world.clearOutput.Overlooks .placeless := overlooks
    rw [← respelledStmts_moving _ world.clearOutput.scope.isSome]
    exact here.interpret Spelling.blurs_placeless (.inl rfl) budget stmts
  have both := blurred overlooks stmts
  rw [same, respelled_placeless, alike, ← respelled_placeless,
    blurred (overlooks.of_shape alike) others] at both
  obtain ⟨verdicts, worlds⟩ := Prod.mk.inj both
  have natives : ran.2.natives = ranOther.2.natives := by
    have kept (world : World) (stmts : List Stmt) :
        (world.clearOutput.interpret budget stmts).2.natives = world.natives :=
      congrArg Host.natives (interpret_host budget stmts world.clearOutput)
    have given : world.shape.natives = other.shape.natives := congrArg World.natives alike
    exact (kept world stmts).trans (given.trans (kept other others).symm)
  refine ⟨verdicts.symm, ?_, ?_⟩
  · rw [← output_blurred .placeless, ← output_blurred .placeless ranOther.2]
    exact congrArg World.output worlds.symm
  · rw [shape_eq_respelled_placeless, shape_eq_respelled_placeless ranOther.2, natives]
    exact congrArg (fun world => { world.clearOutput with natives := ranOther.2.natives })
      worlds.symm

end World

/-! ## Sessions -/

/-- The report without places. -/
def Report.shape (report : Report) : Report := report.moved fun _ => .nowhere

/-- The sessions differ in places alone. -/
structure Session.Alike (first second : Session) : Prop where
  world : first.world.shape = second.world.shape
  resolver : first.resolver.moved (fun _ => .nowhere) = second.resolver.moved fun _ => .nowhere

namespace Session

variable {first second : Session}

/-- Two runs end alike: only places differ in what they report and in the sessions they leave. -/
structure EndAlike (one two : Report × Session) : Prop where
  status : one.1.status = two.1.status
  output : one.1.output = two.1.output
  /-- The diagnostics agree in number, and each in all but its place. -/
  diagnostics :
    one.1.diagnostics.map (fun found => (found.stage, found.location, found.message)) =
      two.1.diagnostics.map fun found => (found.stage, found.location, found.message)
  sessions : one.2.Alike two.2

theorem endAlike_of_shape {one two : Report × Session} (shape : one.1.shape = two.1.shape)
    (sessions : one.2.Alike two.2) : EndAlike one two where
  status := (Report.mk.inj shape).1
  output := (Report.mk.inj shape).2.2
  diagnostics := by
    have kept (report : Report) :
        report.diagnostics.map (fun found => (found.stage, found.location, found.message)) =
          report.shape.diagnostics.map
            fun found => (found.stage, found.location, found.message) := by
      simp only [Report.shape, Report.moved, List.map_map]
      rfl
    rw [kept one.1, kept two.1, shape]
  sessions := sessions

/-- Programs that differ in places alone do the same. -/
theorem Alike.execute (alike : first.Alike second)
    (overlooks : first.world.Overlooks .placeless) (budget : Nat) {program other : Program}
    (same : (program.moved fun _ => .nowhere) = other.moved fun _ => .nowhere) :
    EndAlike (first.execute budget program) (second.execute budget other) := by
  have bound := Resolver.moved_resolve (fun _ => .nowhere) first.resolver program
  have boundOther := Resolver.moved_resolve (fun _ => .nowhere) second.resolver other
  rw [alike.resolver, same, boundOther] at bound
  obtain ⟨programs, errors, resolvers⟩ := Resolution.mk.inj bound
  have accepts : (first.resolver.resolve program).errors = [] ↔
      (second.resolver.resolve other).errors = [] := by
    rw [← List.map_eq_nil_iff, ← errors, List.map_eq_nil_iff]
  by_cases accepted : (first.resolver.resolve program).errors = []
  · obtain ⟨verdicts, outputs, worlds⟩ := World.interpret_alike overlooks alike.world budget
      (Program.mk.inj programs).symm
    rw [execute_of_accepted budget accepted, execute_of_accepted budget (accepts.mp accepted)]
    refine endAlike_of_shape ?_ ⟨worlds, congrArg _ resolvers.symm⟩
    simp only [Report.shape, ← reportOn_moved, verdicts, outputs]
  · rw [execute_of_rejected budget accepted, execute_of_rejected budget (mt accepts.mpr accepted)]
    refine endAlike_of_shape ?_ ⟨alike.world, congrArg _ resolvers.symm⟩
    have diagnostics (errors : List BindingError) :
        (errors.map BindingError.diagnostic).map (Diagnostic.moved fun _ => .nowhere) =
          (errors.map (BindingError.moved fun _ => .nowhere)).map BindingError.diagnostic := by
      rw [List.map_map, List.map_map]
      rfl
    simp only [Report.shape, Report.moved, diagnostics, errors]

end Session

/-! ## Sources -/

/-- The tokens of a source in kind and text, comments left out. -/
def Scan.wording (scan : Scan) : List (Token.Kind × String) :=
  (Token.withoutComments scan.tokens).map fun token => (token.kind, token.lexeme)

/-- Whether the kinds are the same, and no numbers. -/
def Token.Kind.agrees : Token.Kind → Token.Kind → Bool
  | .symbol sign, .symbol other => sign == other
  | .keyword word, .keyword other => word == other
  | .identifier, .identifier => true
  | .string value, .string other => value == other
  | .endOfSource, .endOfSource => true
  | _, _ => false

theorem Token.Kind.eq_of_agrees {kind other : Token.Kind} (agrees : kind.agrees other = true) :
    kind = other := by
  cases kind <;> cases other <;> simp_all [Token.Kind.agrees]

/-- Whether the words agree one by one, without numbers. -/
def wordsAgree : List (Token.Kind × String) → List (Token.Kind × String) → Bool
  | [], [] => true
  | word :: words, other :: others =>
      word.1.agrees other.1 && word.2 == other.2 && wordsAgree words others
  | _, _ => false

theorem eq_of_wordsAgree {words others : List (Token.Kind × String)}
    (agree : wordsAgree words others = true) : words = others := by
  induction words generalizing others with
  | nil =>
      cases others with
      | nil => rfl
      | cons => cases agree
  | cons word words inductionHypothesis =>
      cases others with
      | nil => cases agree
      | cons other others =>
          simp only [wordsAgree, Bool.and_eq_true, beq_iff_eq] at agree
          obtain ⟨⟨kinds, lexemes⟩, rest⟩ := agree
          rw [inductionHypothesis rest, Prod.ext (Token.Kind.eq_of_agrees kinds) lexemes]

namespace Grammar

/-- Comments do not matter to the grammar. -/
theorem Text.of_withoutComments (tokens : List Token) :
    Text.of (Token.withoutComments tokens) = Text.of tokens := by
  have twice : Token.withoutComments (Token.withoutComments tokens) = Token.withoutComments
      tokens := by
    simp [Token.withoutComments, List.filter_filter]
  simp only [Text.of, twice]

end Grammar

open Grammar

theorem Program.ofTokens_withoutComments (tokens : List Token) :
    Program.ofTokens (Token.withoutComments tokens) = Program.ofTokens tokens := by
  simp only [Program.ofTokens, Text.of_withoutComments]

theorem Expr.ofTokens_withoutComments (tokens : List Token) :
    Expr.ofTokens (Token.withoutComments tokens) = Expr.ofTokens tokens := by
  simp only [Expr.ofTokens, Text.of_withoutComments]

section Sources

variable {source other : String} (same : (Scan.of source).wording = (Scan.of other).wording)
include same

/-- Put at no place, the tokens of the two sources are the same. -/
theorem Scan.moved_tokens_of_wording :
    (Token.withoutComments (Scan.of source).tokens).map (Token.moved fun _ => .nowhere) =
      (Token.withoutComments (Scan.of other).tokens).map (Token.moved fun _ => .nowhere) := by
  have written (scan : Scan) : (Token.withoutComments scan.tokens).map
      (Token.moved fun _ => .nowhere) =
      scan.wording.map fun word => ⟨word.1, word.2, .nowhere⟩ := by
    rw [Scan.wording, List.map_map]
    rfl
  rw [written, written, same]

/-- The two sources have programs that differ in places alone, or the same is wrong with them. -/
theorem Program.ofTokens_of_wording :
    movedReading (fun _ => .nowhere) (Program.moved fun _ => .nowhere)
        (Program.ofTokens (Scan.of source).tokens) =
      movedReading (fun _ => .nowhere) (Program.moved fun _ => .nowhere)
        (Program.ofTokens (Scan.of other).tokens) := by
  have nowhere : (fun _ : Span => Span.nowhere) .nowhere = .nowhere := rfl
  rw [← ofTokens_withoutComments, ← ofTokens_moved nowhere, Scan.moved_tokens_of_wording same,
    ofTokens_moved nowhere, ofTokens_withoutComments]

/-- Both sources are bare expressions that differ in places alone, or neither is one. -/
theorem Expr.ofTokens_of_wording :
    movedReading (fun _ => .nowhere) (Expr.moved fun _ => .nowhere)
        (Expr.ofTokens (Scan.of source).tokens) =
      movedReading (fun _ => .nowhere) (Expr.moved fun _ => .nowhere)
        (Expr.ofTokens (Scan.of other).tokens) := by
  have nowhere : (fun _ : Span => Span.nowhere) .nowhere = .nowhere := rfl
  rw [← ofTokens_withoutComments, ← ofTokens_moved nowhere, Scan.moved_tokens_of_wording same,
    ofTokens_moved nowhere, ofTokens_withoutComments]

end Sources

namespace Session

variable {first second : Session}

/-- Sources that differ in layout are run alike. -/
theorem Alike.run (alike : first.Alike second) (overlooks : first.world.Overlooks .placeless)
    (budget : Nat) {source other : String} (clean : (Scan.of source).errors = [])
    (cleanOther : (Scan.of other).errors = [])
    (same : (Scan.of source).wording = (Scan.of other).wording) :
    EndAlike (first.run budget source) (second.run budget other) := by
  have both := Program.ofTokens_of_wording same
  have rejected {session : Session} {source : String} {errors : List SyntaxError}
      (clean : (Scan.of source).errors = [])
      (read : Program.ofTokens (Scan.of source).tokens = .error errors) :
      session.run budget source =
        (⟨.staticError, errors.map SyntaxError.diagnostic, ""⟩, session) := by
    simp [Session.run, ParsedSource.of, read, clean]
  cases read : Program.ofTokens (Scan.of source).tokens with
  | ok program =>
      cases readOther : Program.ofTokens (Scan.of other).tokens with
      | ok another =>
          rw [read, readOther] at both
          rw [run_of_program budget (ParsedSource.program_of_eq_some_iff.mpr ⟨clean, read⟩),
            run_of_program budget (ParsedSource.program_of_eq_some_iff.mpr ⟨cleanOther, readOther⟩)]
          exact alike.execute overlooks budget (Except.ok.inj both)
      | error others =>
          rw [read, readOther] at both
          cases both
  | error errors =>
      cases readOther : Program.ofTokens (Scan.of other).tokens with
      | ok another =>
          rw [read, readOther] at both
          cases both
      | error others =>
          rw [read, readOther] at both
          rw [rejected clean read, rejected cleanOther readOther]
          refine endAlike_of_shape ?_ alike
          have diagnostics (errors : List SyntaxError) :
              (errors.map SyntaxError.diagnostic).map (Diagnostic.moved fun _ => .nowhere) =
                (errors.map (SyntaxError.moved fun _ => .nowhere)).map SyntaxError.diagnostic := by
            rw [List.map_map, List.map_map]
            rfl
          have places := Except.error.inj both
          simp only [Report.shape, Report.moved, diagnostics, places]

/-- Entries that differ in layout are run alike. -/
theorem Alike.runEntry (alike : first.Alike second) (overlooks : first.world.Overlooks .placeless)
    (budget : Nat) {source other : String} (clean : (Scan.of source).errors = [])
    (cleanOther : (Scan.of other).errors = [])
    (same : (Scan.of source).wording = (Scan.of other).wording) :
    EndAlike (first.runEntry budget source) (second.runEntry budget other) := by
  have both := Expr.ofTokens_of_wording same
  have bare {source : String} (clean : (Scan.of source).errors = []) :
      bareExpression? source = (Expr.ofTokens (Scan.of source).tokens).toOption := by
    simp [bareExpression?, clean]
  cases read : Expr.ofTokens (Scan.of source).tokens with
  | ok expr =>
      cases readOther : Expr.ofTokens (Scan.of other).tokens with
      | ok another =>
          rw [read, readOther] at both
          have trees := Except.ok.inj both
          simp only [Session.runEntry, bare clean, bare cleanOther, read, readOther,
              Except.toOption]
          refine alike.execute overlooks budget ?_
          simp only [Program.moved, Program.printing, movedStmts, Stmt.moved, trees]
      | error others =>
          rw [read, readOther] at both
          cases both
  | error errors =>
      cases readOther : Expr.ofTokens (Scan.of other).tokens with
      | ok another =>
          rw [read, readOther] at both
          cases both
      | error others =>
          simp only [Session.runEntry, bare clean, bare cleanOther, read, readOther,
              Except.toOption]
          exact alike.run overlooks budget clean cleanOther same

/-- Of two sources without lexical errors whose tokens agree in kind and text, comments left out,
one does in one session what the other does in a session that differs in places alone; so it is
for sources that are run, and for entries at a prompt. -/
theorem layout_irrelevant (alike : first.Alike second)
    (overlooks : first.world.Overlooks .placeless) (budget : Nat) {source other : String}
    (clean : (Scan.of source).errors = []) (cleanOther : (Scan.of other).errors = [])
    (same : (Scan.of source).wording = (Scan.of other).wording) :
    EndAlike (first.run budget source) (second.run budget other) ∧
      EndAlike (first.runEntry budget source) (second.runEntry budget other) :=
  ⟨alike.run overlooks budget clean cleanOther same,
    alike.runEntry overlooks budget clean cleanOther same⟩

theorem run_host {session : Session} (budget : Nat) (source : String) :
    (session.run budget source).2.world.host = session.world.host := by
  simp only [Session.run]
  split
  · exact execute_host budget _
  · rfl

/-! ### Two layouts of a function and of its calls -/

/-- What the native hands back looks as what it was given. -/
theorem shape_orIdle (arguments : List Value) : (orIdle arguments).shape =
    match arguments.map Value.shape with
    | .nil :: _ => (Value.function idle).shape
    | shapes => shapes.headD .nil := by
  cases arguments with
  | nil => rfl
  | cons first rest => cases first <;> rfl

/-- The native that holds a function answers alike to what looks alike. -/
theorem overlooks_orIdle : (Operation.host fun arguments => .ok (orIdle arguments)).Overlooks
    .placeless := by
  intro moment arguments others alike
  have looks : Value.respelled .placeless = Value.shape := Value.respelled_placeless
  rw [looks] at alike ⊢
  exact congrArg Except.ok (by rw [shape_orIdle, shape_orIdle, alike])

/-- A session with that native. -/
def provided : Session :=
  (new 2048 .working (.still 0)).defineNative "orIdle" 1
    (.host fun arguments => .ok (orIdle arguments))

theorem overlooks_provided : provided.world.Overlooks .placeless := by
  intro operation member
  have natives : provided.world.natives =
      #[.clock (.still 0), .host fun arguments => .ok (orIdle arguments)] := rfl
  simp only [natives, List.mem_toArray, List.mem_cons, List.not_mem_nil, or_false] at member
  rcases member with rfl | rfl
  · exact Operation.overlooks_clock _ _
  · exact overlooks_orIdle

/-- A function, in one line and in several. -/
def callsTwice : String := "fun twice(f)\x7bf();f();\x7d"
@[inherit_doc callsTwice]
def callsTwiceSpread : String :=
  "// Calls what it is given.\nfun twice(f) \x7b\n  f(); // once\n  f(); // and again\n\x7d\n"

/-- Two calls of the function, the second of which fails in it. -/
def twoCalls : String := "print twice(orIdle(nil));twice(nil);"
@[inherit_doc twoCalls]
def twoCallsSpread : String := "print twice(\n  orIdle(nil));\n\ntwice ( nil ) ; // fails"

/-- The fault in a function of an earlier source is reported in the place that the layout of that
source gives it. -/
theorem layout_irrelevant_calls :
    let one := (provided.run 200 callsTwice).2
    let two := (provided.run 200 callsTwiceSpread).2
    EndAlike (one.run 200 twoCalls) (two.run 200 twoCallsSpread) ∧
      (one.run 200 twoCalls).1.output = "nil\n" ∧
      (one.run 200 twoCalls).1.diagnostics.map Diagnostic.span = [⟨1, 16, 1⟩] ∧
      (two.run 200 twoCallsSpread).1.diagnostics.map Diagnostic.span = [⟨3, 5, 1⟩] := by
  intro one two
  have functions : (Scan.of callsTwice).wording = (Scan.of callsTwiceSpread).wording :=
    eq_of_wordsAgree (by decide +kernel)
  have calls : (Scan.of twoCalls).wording = (Scan.of twoCallsSpread).wording :=
    eq_of_wordsAgree (by decide +kernel)
  have alike : provided.Alike provided := ⟨rfl, rfl⟩
  have prepared : one.Alike two :=
    (layout_irrelevant alike overlooks_provided 200 (by decide +kernel) (by decide +kernel)
      functions).1.sessions
  have overlooks : one.world.Overlooks .placeless :=
    overlooks_provided.of_host (run_host 200 callsTwice)
  refine ⟨(layout_irrelevant prepared overlooks 200 (by decide +kernel) (by decide +kernel)
      calls).1,
      ?_⟩
  decide +kernel

end Session

end Lox
