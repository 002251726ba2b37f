import Lox.Value

/-!
Contract: what a run still has to do.

An expression ends with a value, a statement with a flow: on to the next one, out
of the loop, on to the next round, or out of the function with a value. A frame
is a construct in which one part is being evaluated; it awaits the result of the
part and then goes on towards its own. A stack of frames fits together: each
frame awaits what the one above it ends with.

Owns: flows, frames and stacks. Does not own: what a frame does with the result
that it awaits.
-/

namespace Lox

/-- How a statement ends. -/
inductive Flow where
  | normal
  | break
  | continue
  | return (value : Value)

/-- What a construct ends with. -/
inductive Awaited where
  | value
  | flow
deriving DecidableEq, Repr

/-- The parts of a loop. -/
structure Loop where
  condition : Expr
  body : Stmt
  increment : Option Expr

/-- A construct in progress: what it awaits from its running part, and what it
ends with itself. -/
inductive Frame : Awaited → Awaited → Type where
  /-- Awaits the value to assign. -/
  | assign (target : Reference) : Frame .value .value
  /-- Awaits the operand of a prefix operator. -/
  | unary (operator : UnaryOperator) (span : Span) : Frame .value .value
  /-- Awaits the left operand. -/
  | leftOperand (operator : BinaryOperator) (right : Expr) (span : Span) : Frame .value .value
  /-- Awaits the right operand. -/
  | rightOperand (operator : BinaryOperator) (left : Value) (span : Span) : Frame .value .value
  /-- Awaits the left operand of a logical operator. -/
  | logical (operator : LogicalOperator) (right : Expr) : Frame .value .value
  /-- Awaits what is called. -/
  | callee (arguments : List Expr) (span : Span) : Frame .value .value
  /-- Awaits an argument; those before it are in reverse order. -/
  | argument (callee : Value) (before : List Value) (others : List Expr) (span : Span) :
      Frame .value .value
  /-- Awaits the object of a property. -/
  | property (name : Name) : Frame .value .value
  /-- Awaits the object whose field is set. -/
  | fieldObject (name : Name) (value : Expr) : Frame .value .value
  /-- Awaits the value of a field. -/
  | fieldValue (object : Instance) (name : Name) : Frame .value .value
  /-- Awaits the value of an expression statement. -/
  | discard : Frame .value .flow
  /-- Awaits the value to print. -/
  | print (span : Span) : Frame .value .flow
  /-- Awaits the first value of a variable. -/
  | declare (name : Name) : Frame .value .flow
  /-- Awaits the condition of an `if`. -/
  | branch (thenBranch : Stmt) (elseBranch : Option Stmt) : Frame .value .flow
  /-- Awaits the condition of a loop. -/
  | condition (loop : Loop) : Frame .value .flow
  /-- Awaits the end of a round of a loop. -/
  | round (loop : Loop) : Frame .flow .flow
  /-- Awaits the increment of a loop. -/
  | increment (loop : Loop) : Frame .value .flow
  /-- Awaits the value to return. -/
  | return : Frame .value .flow
  /-- Awaits the end of a statement that others follow. -/
  | sequence (others : List Stmt) : Frame .flow .flow
  /-- Awaits the end of statements in an environment of their own, from which the
  run goes back to another. -/
  | leave (previous : Option EnvironmentRef) : Frame .flow .flow
  /-- Awaits the end of a function's body. -/
  | body (function : Function) (span : Span) : Frame .flow .value
  /-- Awaits the end of the initializer of a new instance. -/
  | construct (object : Instance) : Frame .value .value
  /-- Awaits the end of a call. -/
  | call : Frame .value .value

/-- The constructs in progress, the innermost on top. -/
inductive Stack : Awaited → Type where
  | empty {awaited : Awaited} : Stack awaited
  | push {awaited outcome : Awaited} (frame : Frame awaited outcome) (rest : Stack outcome) :
      Stack awaited

end Lox
