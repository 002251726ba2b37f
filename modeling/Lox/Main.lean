import Std.Time.DateTime.Timestamp
import Lox.Command

/-!
Contract: the program `lox`.

It reads its arguments, and a script or the standard input line by line, and
writes what `Lox.Command` answers. It looks at the time before the script and
before each line, and a program sees that time while it runs. An argument that is
not understood ends it with code 2, a script that cannot be read with code 1.

Owns: reading, writing and exit codes of the process. Decides nothing else.
-/

namespace Lox.Command

/-- Seconds since the epoch. -/
def clock : IO Float := do
  let moment ← Std.Time.Timestamp.now
  return Float.ofInt moment.toNanosecondsSinceUnixEpoch.val / 1000000000.0

/-- Writes a transcript to both outputs. -/
def write (transcript : Transcript) : IO Unit := do
  let stdout ← IO.getStdout
  stdout.putStr transcript.stdout
  stdout.flush
  (← IO.getStderr).putStr transcript.stderr

/-- Goes on with a conversation until its end. -/
partial def converseFrom (state : Prompt.State) (session : Session) : IO Unit := do
  let line ← (← IO.getStdin).getLine
  if line.isEmpty then return
  let (state, event) := state.read ((Text.lines line).headD "")
  let (written, session) := handle patience (session.withClock (← clock)) event
  write written
  match event with
  | .exit => return
  | _ => converseFrom state session

/-- Why a script could not be read. -/
def reasonOf : IO.Error → String
  | .noFileOrDirectory _ _ _ => missingFile
  | other => toString other

/-- Treats the script at a path. -/
def treatScript (mode : Mode) (path : String) (session : Session) : IO UInt32 := do
  match ← (IO.FS.readFile path).toBaseIO with
  | .ok source => do
      let (status, transcript) := runScript patience mode source session
      write transcript
      return status.exitCode.toUInt32
  | .error reason => do
      write ⟨"", unreadableScript path (reasonOf reason)⟩
      return 1

end Lox.Command

/-- Runs the command with these arguments. -/
def main (arguments : List String) : IO UInt32 := do
  match Lox.Command.Options.default.read arguments with
  | none => do
      Lox.Command.write
        ⟨"", "Usage: lox [--mode tokens|ast|eval] [--max-call-depth N] [SCRIPT]\n"⟩
      return 2
  | some options => do
      let session := Lox.Session.new options.callLimit .working (← Lox.Command.clock)
      match options.script with
      | some path => Lox.Command.treatScript options.mode path session
      | none => do
          Lox.Command.converseFrom ⟨options.mode, ""⟩ session
          return 0
