import Lox.Prompt.Completeness
import Lox.Text

/-!
Contract: a conversation at the prompt, line by line.

Between entries a line that begins with a colon is a directive. Every other line
is added to the pending entry, which is handed over as soon as it is complete.
An entry that is pending at the end is dropped.

Owns: directives, the partition of lines into entries. Does not own: what is
done with an entry.
-/

namespace Lox

/-- What is done with a source. -/
inductive Mode where
  /-- List its tokens. -/
  | tokens
  /-- Print its tree. -/
  | ast
  /-- Run it. -/
  | eval
deriving DecidableEq, Repr

/-- The mode of this name. -/
def Mode.ofName? : String → Option Mode
  | "tokens" => some .tokens
  | "ast" => some .ast
  | "eval" => some .eval
  | _ => none

namespace Prompt

/-- A directive at the prompt. -/
inductive Directive where
  | switchTo (mode : Mode)
  | exit
  | unknown (text : String)
deriving DecidableEq, Repr

/-- The directive of a line, if it is one: its text without blanks around it
begins with a colon. -/
def directive? (line : String) : Option Directive :=
  match (Text.trimmed line).toList with
  | ':' :: name =>
      some (match Mode.ofName? (String.ofList name) with
        | some mode => .switchTo mode
        | none => if name = "exit".toList then .exit else .unknown (Text.trimmed line))
  | _ => none

/-- Where a conversation stands: the mode, and the lines of the pending entry. -/
structure State where
  mode : Mode
  pending : String
deriving DecidableEq, Repr

/-- What a line leads to. -/
inductive Event where
  /-- The mode changes. -/
  | switched (mode : Mode)
  /-- There is no such directive. -/
  | unknownDirective (text : String)
  /-- The conversation ends. -/
  | exit
  /-- The line is added to an entry that needs more. -/
  | pending
  /-- The line completes an entry, to be treated in this mode. -/
  | entry (mode : Mode) (source : String)
deriving DecidableEq, Repr

/-- Reads a directive. -/
def State.follow (state : State) : Directive → State × Event
  | .switchTo mode => ({ state with mode := mode }, .switched mode)
  | .exit => (state, .exit)
  | .unknown text => (state, .unknownDirective text)

/-- Adds a line to the pending entry. -/
def State.extend (state : State) (line : String) : State × Event :=
  let entry := state.pending ++ line ++ "\n"
  if isComplete entry then ({ state with pending := "" }, .entry state.mode entry)
  else ({ state with pending := entry }, .pending)

/-- Reads a line. -/
def State.read (state : State) (line : String) : State × Event :=
  if state.pending.isEmpty then
    match directive? line with
    | some directive => state.follow directive
    | none => state.extend line
  else state.extend line

/-- The events of a conversation, up to its end. -/
def State.events (state : State) : List String → List Event
  | [] => []
  | line :: rest =>
      match state.read line with
      | (_, .exit) => [.exit]
      | (following, event) => event :: following.events rest

/-- The events of a conversation that starts in this mode. -/
def events (mode : Mode) (lines : List String) : List Event :=
  State.events ⟨mode, ""⟩ lines

end Prompt

end Lox
