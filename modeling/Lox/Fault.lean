import Lox.Syntax

/-!
Contract: how a run can fail.

A fault has a cause and the span at which it shows. A violation is something
that the language does not allow. A stack overflow is a call beyond the depth
limit. A breach is a state that the binding of names rules out, or an output
that cannot be written; the last two sorts are fatal.

Owns: causes and wording of faults.
-/

namespace Lox

/-- What the language does not allow. -/
inductive Fault.Violation where
  | undefinedVariable (name : String)
  | undefinedProperty (name : String)
  | operandNotNumber
  | operandsNotNumbers
  | operandsNotAddable
  | notCallable
  | argumentCount (expected given : Nat)
  | propertyOfOther
  | fieldOfOther
  | superclassNotClass
  /-- A native refuses its arguments. -/
  | refusal (message : String)
deriving DecidableEq, Repr

/-- What the binding of names rules out, and failing output. -/
inductive Fault.Breach where
  | missingLocal (depth slot : Nat)
  | unboundThis
  | unboundSuper
  | superWithoutThis
  | superNotClass
  | thisNotInstance
  | initializerWithoutInstance
  | unknownNative (number : Nat)
  /-- Output cannot be written. -/
  | output (reason : String)
deriving DecidableEq, Repr

/-- Why a run fails. -/
inductive Fault.Cause where
  | violation (violation : Fault.Violation)
  | stackOverflow
  | breach (breach : Fault.Breach)
deriving DecidableEq, Repr

/-- A failure of a run and where it shows. -/
structure Fault where
  cause : Fault.Cause
  span : Span
deriving DecidableEq, Repr

/-- The wording of a violation. -/
def Fault.Violation.message : Fault.Violation → String
  | .undefinedVariable name => "Undefined variable '" ++ name ++ "'."
  | .undefinedProperty name => "Undefined property '" ++ name ++ "'."
  | .operandNotNumber => "Operand must be a number."
  | .operandsNotNumbers => "Operands must be numbers."
  | .operandsNotAddable => "Operands must be two numbers or two strings."
  | .notCallable => "Can only call functions and classes."
  | .argumentCount expected given =>
      "Expected " ++ toString expected ++ " arguments but got " ++ toString given ++ "."
  | .propertyOfOther => "Only instances have properties."
  | .fieldOfOther => "Only instances have fields."
  | .superclassNotClass => "Superclass must be a class."
  | .refusal message => message

/-- The wording of a breach. -/
def Fault.Breach.message : Fault.Breach → String
  | .missingLocal depth slot =>
      "no local at depth " ++ toString depth ++ " slot " ++ toString slot
  | .unboundThis => "'this' was not resolved"
  | .unboundSuper => "'super' was not resolved"
  | .superWithoutThis => "'super' has no 'this' scope"
  | .superNotClass => "'super' is not a class"
  | .thisNotInstance => "'this' is not an instance"
  | .initializerWithoutInstance => "initializer is not bound to an instance"
  | .unknownNative number => "no native function " ++ toString number
  | .output reason => reason

/-- The wording of a cause. -/
def Fault.Cause.message : Fault.Cause → String
  | .violation broken => broken.message
  | .stackOverflow => "Stack overflow."
  | .breach found => "Internal error: " ++ found.message

namespace Fault

/-- The wording of a fault. -/
def message (fault : Fault) : String := fault.cause.message

/-- Whether the fault is more than a violation. -/
def isFatal (fault : Fault) : Bool :=
  match fault.cause with
  | .violation _ => false
  | _ => true

/-- The fault with its line, as one line of text. -/
def display (fault : Fault) : String :=
  "[line " ++ toString fault.span.line ++ "] " ++ fault.message

/-- A violation at a span. -/
def ofViolation (violation : Violation) (span : Span) : Fault := ⟨.violation violation, span⟩

/-- A breach at a span. -/
def ofBreach (breach : Breach) (span : Span) : Fault := ⟨.breach breach, span⟩

end Fault

end Lox
