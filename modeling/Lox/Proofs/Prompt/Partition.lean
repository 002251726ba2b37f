import Lox.Command

/-!
Contract: what becomes of the lines of a conversation.

The lines fall into pieces: directives, each a line of its own between two entries, and
entries, which end with the first line that completes them. No line is lost, and none
is in two pieces. An entry is treated once, in the mode that the last directive for a mode
sets, and listings and trees leave the session alone.

Main statements: `Command.converse_parted`.

Owns: the pieces of a conversation and their treatment, without the state that the
prompt keeps between lines. Does not own: when an entry is complete.
-/

set_option autoImplicit false

namespace Lox

/-- The directive that switches to a mode. -/
def Mode.directive : Mode → String
  | .tokens => ":tokens"
  | .ast => ":ast"
  | .eval => ":eval"

namespace Prompt

/-- Lines, each with its end. -/
def textOf (lines : List String) : String := String.join (lines.map (· ++ "\n"))

@[simp]
theorem textOf_nil : textOf [] = "" := rfl

theorem textOf_concat (lines : List String) (line : String) :
    textOf (lines ++ [line]) = textOf lines ++ line ++ "\n" := by
  simp [textOf, String.join_append, String.join_cons, String.join_nil, String.append_assoc]

/-- Every line has its end, so only no lines at all make no text. -/
theorem isEmpty_textOf (lines : List String) : (textOf lines).isEmpty = lines.isEmpty := by
  rcases List.eq_nil_or_concat lines with rfl | ⟨front, line, rfl⟩
  · rfl
  · rw [List.concat_eq_append, textOf_concat, Bool.eq_iff_iff]
    simp [String.isEmpty_iff]

/-! ## Pieces -/

/-- A stretch of the lines of a conversation. -/
inductive Piece where
  /-- A line between two entries that begins with a colon, blanks apart. -/
  | directive (line : String)
  | entry (lines : List String)

/-- The lines that a piece is made of. -/
def Piece.lines : Piece → List String
  | .directive line => [line]
  | .entry lines => lines

/-- Whether the text of a line, without blanks around it, begins with a colon. -/
def HasColon (line : String) : Prop := ∃ name, (Text.trimmed line).toList = ':' :: name

/-- Lines that begin an entry and do not complete it; they may be none. -/
structure Pending (lines : List String) : Prop where
  plain : ∀ line, lines.head? = some line → ¬ HasColon line
  lacking : ∀ front, front ≠ [] → front <+: lines → isComplete (textOf front) = false

/-- Lines that make up an entry: they are complete, and no fewer of them are. -/
structure Finished (lines : List String) : Prop where
  nonempty : lines ≠ []
  plain : ∀ line, lines.head? = some line → ¬ HasColon line
  complete : isComplete (textOf lines) = true
  shortest : ∀ front, front ≠ [] → front <+: lines → front ≠ lines →
    isComplete (textOf front) = false

/-- What the lines of a piece are like in front of the end of a conversation. -/
def Piece.Sound : Piece → Prop
  | .directive line => HasColon line ∧ Text.trimmed line ≠ ":exit"
  | .entry lines => Finished lines

/-- The lines of a conversation are pieces, an entry dropped at their end, and what is not read
any more, from the directive to exit on. -/
structure Parted (lines : List String) (pieces : List Piece) (dropped unread : List String) :
    Prop where
  whole : pieces.flatMap Piece.lines ++ dropped ++ unread = lines
  sound : ∀ piece ∈ pieces, piece.Sound
  pending : Pending dropped
  ends : unread = [] ∨ dropped = [] ∧ ∃ line rest, unread = line :: rest ∧ Text.trimmed line = ":exit"

/-- The mode that a piece sets. -/
def Piece.mode? : Piece → Option Mode
  | .directive line =>
      [Mode.tokens, .ast, .eval].find? fun mode => Text.trimmed line == mode.directive
  | .entry _ => none

theorem Piece.mode?_directive_eq_some_iff (line : String) (mode : Mode) :
    (Piece.directive line).mode? = some mode ↔ Text.trimmed line = mode.directive := by
  unfold Piece.mode?
  constructor
  · intro found
    simpa using List.find?_some found
  · intro fits
    cases mode <;> simp [fits, Mode.directive]

/-- The mode behind pieces: the one that the last of them to set one sets. -/
def modeBehind (mode : Mode) (pieces : List Piece) : Mode :=
  (pieces.filterMap Piece.mode?).getLast?.getD mode

@[simp]
theorem modeBehind_nil (mode : Mode) : modeBehind mode [] = mode := rfl

theorem modeBehind_concat (mode : Mode) (pieces : List Piece) (piece : Piece) :
    modeBehind mode (pieces ++ [piece]) = piece.mode?.getD (modeBehind mode pieces) := by
  cases sets : piece.mode? <;> simp [modeBehind, List.filterMap_append, sets]

/-! ## Lines -/

theorem directive?_eq_none_iff (line : String) : directive? line = none ↔ ¬ HasColon line := by
  unfold directive? HasColon
  split <;> simp_all

/-- Behind the colon of a directive for a mode stands the name of the mode. -/
theorem ofName?_eq (name : String) :
    Mode.ofName? name =
      [Mode.tokens, .ast, .eval].find? fun mode => ":" ++ name == mode.directive := by
  have spelled (word : String) : (":" ++ name == ":" ++ word) = (name == word) := by
    rw [Bool.eq_iff_iff, beq_iff_eq, beq_iff_eq, String.append_right_inj]
  have tokens := spelled "tokens"
  have ast := spelled "ast"
  have eval := spelled "eval"
  unfold Mode.ofName?
  split <;> simp_all [Mode.directive]

/-- What a directive is told from: its text without blanks around it. -/
theorem directive?_of_hasColon {line : String} (colon : HasColon line) :
    directive? line = some (match (Piece.directive line).mode? with
      | some mode => .switchTo mode
      | none => if Text.trimmed line = ":exit" then .exit else .unknown (Text.trimmed line)) := by
  obtain ⟨name, text⟩ := colon
  have trimmed : Text.trimmed line = ":" ++ String.ofList name := by
    simp [← String.toList_inj, text]
  have exit : Text.trimmed line = ":exit" ↔ name = "exit".toList := by
    simp [← String.toList_inj, text]
  have named : Mode.ofName? (String.ofList name) = (Piece.directive line).mode? := by
    rw [ofName?_eq, Piece.mode?, trimmed]
  simp only [directive?, text, named]
  cases (Piece.directive line).mode? with
  | some mode => rfl
  | none => simp only [exit]

/-- A pending entry with one more line, if that does not complete it. -/
theorem Pending.concat {held : List String} {line : String} (pending : Pending held)
    (plain : held = [] → ¬ HasColon line)
    (lacking : isComplete (textOf (held ++ [line])) = false) : Pending (held ++ [line]) where
  plain := by
    cases held with
    | nil => simpa using plain rfl
    | cons first others => simpa using pending.plain
  lacking front nonempty initial := by
    rcases List.prefix_concat_iff.mp initial with rfl | shorter
    · exact lacking
    · exact pending.lacking front nonempty shorter

/-- A pending entry with the line that completes it. -/
theorem Pending.finished {held : List String} {line : String} (pending : Pending held)
    (plain : held = [] → ¬ HasColon line)
    (complete : isComplete (textOf (held ++ [line])) = true) : Finished (held ++ [line]) where
  nonempty := by simp
  plain := by
    cases held with
    | nil => simpa using plain rfl
    | cons first others => simpa using pending.plain
  complete := complete
  shortest front nonempty initial other :=
    pending.lacking front nonempty ((List.prefix_concat_iff.mp initial).resolve_left other)

theorem pending_nil : Pending [] where
  plain := by simp
  lacking front nonempty initial := absurd (List.prefix_nil.mp initial) nonempty

/-- A line that is no directive, or that an entry is pending in front of, is added to it. -/
theorem read_of_plain (mode : Mode) {held : List String} {line : String}
    (plain : held = [] → ¬ HasColon line) :
    State.read ⟨mode, textOf held⟩ line =
      if isComplete (textOf (held ++ [line])) then
        (⟨mode, ""⟩, .entry mode (textOf (held ++ [line])))
      else (⟨mode, textOf (held ++ [line])⟩, .pending) := by
  have extended : State.read ⟨mode, textOf held⟩ line = State.extend ⟨mode, textOf held⟩ line := by
    unfold State.read
    cases held with
    | nil => simp [(directive?_eq_none_iff line).mpr (plain rfl)]
    | cons first others => simp [isEmpty_textOf]
  rw [extended, State.extend, textOf_concat]

/-- A directive is followed between two entries. -/
theorem read_of_hasColon (mode : Mode) {line : String} (colon : HasColon line) :
    State.read ⟨mode, ""⟩ line = State.follow ⟨mode, ""⟩ (match (Piece.directive line).mode? with
      | some mode => .switchTo mode
      | none => if Text.trimmed line = ":exit" then .exit else .unknown (Text.trimmed line)) := by
  unfold State.read
  simp [directive?_of_hasColon colon]

theorem events_cons {state following : State} {line : String} {event : Event}
    (read : state.read line = (following, event)) (goesOn : event ≠ .exit) (rest : List String) :
    state.events (line :: rest) = event :: following.events rest := by
  rw [State.events, read]
  cases event <;> simp_all

/-- A piece in front of what is parted. -/
theorem Parted.cons {piece : Piece} {lines dropped unread : List String} {pieces : List Piece}
    (sound : piece.Sound) (parted : Parted lines pieces dropped unread) :
    Parted (piece.lines ++ lines) (piece :: pieces) dropped unread where
  whole := by simp [← parted.whole]
  sound := by simpa using ⟨sound, parted.sound⟩
  pending := parted.pending
  ends := parted.ends

end Prompt

namespace Command

open Prompt

@[simp]
theorem Transcript.append_empty (written : Transcript) : written.append .empty = written := by
  simp [Transcript.append, Transcript.empty]

@[simp]
theorem Transcript.empty_append (written : Transcript) :
    Transcript.empty.append written = written := by
  simp [Transcript.append, Transcript.empty]

theorem Transcript.append_assoc (first second third : Transcript) :
    (first.append second).append third = first.append (second.append third) := by
  simp [Transcript.append, String.append_assoc]

/-- What is written on a directive that there is not. -/
def complaint (line : String) : Transcript :=
  ⟨"", "Unknown directive '" ++ Text.trimmed line ++ "'\n"⟩

/-- How the pieces of a conversation are treated, each of them once and in turn: what is written
until then, and the session that is left. -/
inductive Treats (budget : Nat) (mode : Mode) (session : Session) :
    List Piece → Transcript → Session → Prop
  | nothing : Treats budget mode session [] .empty session
  | switched {pieces : List Piece} {written : Transcript} {now : Session} {line : String}
      {sets : Mode} : Treats budget mode session pieces written now →
      Text.trimmed line = sets.directive →
      Treats budget mode session (pieces ++ [.directive line]) written now
  | unknown {pieces : List Piece} {written : Transcript} {now : Session} {line : String} :
      Treats budget mode session pieces written now →
      (∀ sets : Mode, Text.trimmed line ≠ sets.directive) →
      Treats budget mode session (pieces ++ [.directive line]) (written.append (complaint line)) now
  | blank {pieces : List Piece} {written : Transcript} {now : Session} {lines : List String} :
      Treats budget mode session pieces written now → Text.allBlank (textOf lines) = true →
      Treats budget mode session (pieces ++ [.entry lines]) written now
  | listed {pieces : List Piece} {written : Transcript} {now : Session} {lines : List String} :
      Treats budget mode session pieces written now → Text.allBlank (textOf lines) = false →
      modeBehind mode pieces = .tokens →
      Treats budget mode session (pieces ++ [.entry lines])
        (written.append (listTokens (textOf lines)).2) now
  | printed {pieces : List Piece} {written : Transcript} {now : Session} {lines : List String} :
      Treats budget mode session pieces written now → Text.allBlank (textOf lines) = false →
      modeBehind mode pieces = .ast →
      Treats budget mode session (pieces ++ [.entry lines])
        (written.append (printTree (textOf lines)).2) now
  | evaluated {pieces : List Piece} {written : Transcript} {now following : Session}
      {lines : List String} {report : Report} :
      Treats budget mode session pieces written now → Text.allBlank (textOf lines) = false →
      modeBehind mode pieces = .eval → now.runEntry budget (textOf lines) = (report, following) →
      Treats budget mode session (pieces ++ [.entry lines])
        (written.append (transcriptOf (textOf lines) report)) following

variable {budget : Nat} {mode : Mode} {session now : Session} {pieces : List Piece}
  {written : Transcript}

/-- An entry is treated in the mode behind the pieces in front of it. -/
theorem Treats.entry (treats : Treats budget mode session pieces written now)
    (lines : List String) :
    Treats budget mode session (pieces ++ [.entry lines])
      (written.append (runEntry budget (modeBehind mode pieces) (textOf lines) now).1)
      (runEntry budget (modeBehind mode pieces) (textOf lines) now).2 := by
  unfold runEntry
  split
  case isTrue blank => simpa using treats.blank blank
  case isFalse solid =>
    rw [Bool.not_eq_true] at solid
    cases holds : modeBehind mode pieces with
    | tokens => exact treats.listed solid holds
    | ast => exact treats.printed solid holds
    | eval => exact treats.evaluated solid holds rfl

/-- A directive is a complaint at most. -/
theorem Treats.directive (treats : Treats budget mode session pieces written now) (line : String) :
    Treats budget mode session (pieces ++ [.directive line])
      (match (Piece.directive line).mode? with
        | some _ => written
        | none => written.append (complaint line)) now := by
  split
  case h_1 sets found =>
    exact treats.switched ((Piece.mode?_directive_eq_some_iff line sets).mp found)
  case h_2 none =>
    refine treats.unknown fun sets fits => ?_
    rw [(Piece.mode?_directive_eq_some_iff line sets).mpr fits] at none
    exact Option.some_ne_none sets none

/-! ## Conversations -/

/-- From a pending entry on, the lines that are still to come are treated as a partition of the
entry and them says. -/
theorem handleAll_parted (lines : List String) :
    ∀ {held : List String} {pieces : List Piece} {written : Transcript} {now : Session},
      Pending held → Treats budget mode session pieces written now →
      ∃ further dropped unread, Parted (held ++ lines) further dropped unread ∧
        ∃ last, Treats budget mode session (pieces ++ further)
          (written.append (handleAll budget now
            (State.events ⟨modeBehind mode pieces, textOf held⟩ lines))) last := by
  induction lines with
  | nil =>
      intro held pieces written now pending treats
      exact ⟨[], held, [], ⟨by simp, by simp, pending, .inl rfl⟩, now,
        by simpa [State.events, handleAll] using treats⟩
  | cons line rest inductionHypothesis =>
      intro held pieces written now pending treats
      by_cases plain : held = [] → ¬ HasColon line
      · have read := read_of_plain (modeBehind mode pieces) plain
        cases complete : isComplete (textOf (held ++ [line])) with
        | true =>
            rw [complete, if_pos rfl] at read
            obtain ⟨further, dropped, unread, parted, last, goesOn⟩ :=
              inductionHypothesis pending_nil (treats.entry (held ++ [line]))
            have sound : (Piece.entry (held ++ [line])).Sound := pending.finished plain complete
            refine ⟨.entry (held ++ [line]) :: further, dropped, unread, ?_, last, ?_⟩
            · simpa [Piece.lines] using parted.cons sound
            · rw [events_cons read (by simp), handleAll]
              simpa [handle, modeBehind_concat, Piece.mode?, Transcript.append_assoc] using goesOn
        | false =>
            rw [complete, if_neg Bool.false_ne_true] at read
            obtain ⟨further, dropped, unread, parted, last, goesOn⟩ :=
              inductionHypothesis (pending.concat plain complete) treats
            refine ⟨further, dropped, unread, by simpa using parted, last, ?_⟩
            rw [events_cons read (by simp), handleAll]
            simpa [handle] using goesOn
      · simp only [Classical.not_imp, Classical.not_not] at plain
        obtain ⟨rfl, colon⟩ := plain
        have read := read_of_hasColon (modeBehind mode pieces) colon
        by_cases exit : Text.trimmed line = ":exit"
        · refine ⟨[], [], line :: rest, ⟨rfl, by simp, pending_nil, .inr ⟨rfl, line, rest, rfl, exit⟩⟩,
            now, ?_⟩
          have none : (Piece.directive line).mode? = none := by
            simp [Piece.mode?, exit, Mode.directive]
          rw [textOf_nil, State.events, read]
          simpa [none, exit, State.follow, handleAll, handle] using treats
        · obtain ⟨further, dropped, unread, parted, last, goesOn⟩ :=
            inductionHypothesis pending_nil (treats.directive line)
          have sound : (Piece.directive line).Sound := ⟨colon, exit⟩
          refine ⟨.directive line :: further, dropped, unread, parted.cons sound, last, ?_⟩
          rw [textOf_nil]
          cases sets : (Piece.directive line).mode? with
          | some mode =>
              simp only [sets, State.follow] at read
              rw [events_cons read (by simp), handleAll]
              simpa [handle, modeBehind_concat, sets] using goesOn
          | none =>
              simp only [sets, exit, if_false, State.follow] at read
              rw [events_cons read (by simp), handleAll]
              simpa [handle, complaint, modeBehind_concat, sets, Transcript.append_assoc] using goesOn

/-- A conversation treats its lines as entries and directives: what it reads is parted into them,
and each of them is treated once. -/
theorem converse_parted (budget : Nat) (mode : Mode) (lines : List String) (session : Session) :
    ∃ pieces dropped unread, Parted lines pieces dropped unread ∧
      ∃ last, Treats budget mode session pieces (converse budget mode lines session) last := by
  have start : Treats budget mode session [] .empty session := .nothing
  obtain ⟨pieces, dropped, unread, parted, last, treats⟩ := handleAll_parted lines pending_nil start
  exact ⟨pieces, dropped, unread, parted, last,
    by simpa [converse, events] using treats⟩

/-- What looks like a directive inside of an entry is a line of it. -/
example : Prompt.events .eval ["\x7b", ":exit", "\x7d", " :ast ", ":exit", "1"] =
    [.pending, .pending, .entry .eval "\x7b\n:exit\n\x7d\n", .switched .ast, .exit] := by
  decide +kernel

end Command

end Lox
