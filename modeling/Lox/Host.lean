import Lox.Value

/-!
Contract: what a session has from its host.

The host provides natives, among them one that reads a clock, and a place for
output to go. Neither is at the session's command: a native may answer otherwise
at another moment, a clock may not tell the time, and output may fail sooner or
later.

Owns: clocks, operations of natives, outlets. Does not own: when they are used.
-/

namespace Lox

/-- A clock, reading after reading: seconds since the epoch, or why they cannot be told. -/
structure Clock where
  reading : Nat → Except String Float

/-- The clock that shows one time only. -/
def Clock.still (seconds : Float) : Clock := ⟨fun _ => .ok seconds⟩

instance : Coe Float Clock := ⟨.still⟩

/-- What a native does: its answer or its refusal, at a moment and to arguments. The
moment is how many calls of natives there have been before. So a native may answer the
same arguments differently from call to call, as if it had a memory or looked at what
is around the session. -/
structure Operation where
  answer : Nat → List Value → Except String Value

/-- The operation that computes its answer from its arguments alone. -/
def Operation.host (compute : List Value → Except String Value) : Operation :=
  ⟨fun _ arguments => compute arguments⟩

/-- The operation that reads a clock. -/
def Operation.clock (clock : Clock) : Operation :=
  ⟨fun moment _ =>
    match clock.reading moment with
    | .ok seconds => .ok (.number seconds)
    | .error reason => .error ("clock: " ++ reason)⟩

/-- How output behaves at one moment: why writing fails, and why flushing fails, if they do. -/
structure Sink where
  writeFailure : Option String
  flushFailure : Option String
deriving DecidableEq, Repr

/-- Output that succeeds. -/
def Sink.working : Sink := ⟨none, none⟩

/-- Where output goes: how it behaves behind the lines that have been written. -/
structure Outlet where
  behind : Array String → Sink

/-- The outlet that behaves the same at all times. -/
def Outlet.steady (sink : Sink) : Outlet := ⟨fun _ => sink⟩

instance : Coe Sink Outlet := ⟨.steady⟩

/-- Output that always succeeds. -/
def Outlet.working : Outlet := .steady .working

end Lox
