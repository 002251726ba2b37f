import Lox.Grammar.Complaint
import Lox.Syntax
import Lox.Table

/-!
Contract: local scopes and what the binding rules may object to.

A scope lists the names declared in it, in order; the place of a name in the
list is the slot of its variable. A name is ready once its initializer is
behind. The address of a name is found in the innermost scope that declares it.

Owns: scopes, addresses of names, causes and wording of binding errors.
-/

namespace Lox

/-- Which rule about names, jumps and classes a program breaks. -/
inductive BindingError.Cause where
  | ownInitializer
  | duplicate
  | returnOutsideFunction
  | returnFromInitializer
  | breakOutsideLoop
  | continueOutsideLoop
  | thisOutsideClass
  | superOutsideClass
  | superWithoutSuperclass
  | inheritsFromItself
deriving DecidableEq, Repr

/-- The wording of a binding error. -/
def BindingError.Cause.message : BindingError.Cause → String
  | .ownInitializer => "Can't read local variable in its own initializer."
  | .duplicate => "Already a variable with this name in this scope."
  | .returnOutsideFunction => "Can't return from top-level code."
  | .returnFromInitializer => "Can't return a value from an initializer."
  | .breakOutsideLoop => "Can't use 'break' outside of a loop."
  | .continueOutsideLoop => "Can't use 'continue' outside of a loop."
  | .thisOutsideClass => "Can't use 'this' outside of a class."
  | .superOutsideClass => "Can't use 'super' outside of a class."
  | .superWithoutSuperclass => "Can't use 'super' in a class with no superclass."
  | .inheritsFromItself => "A class can't inherit from itself."

/-- A binding error, the lexeme that it is about and where it stands. -/
structure BindingError where
  cause : BindingError.Cause
  lexeme : String
  span : Span
deriving DecidableEq, Repr

/-- The wording of a binding error. -/
def BindingError.message (error : BindingError) : String := error.cause.message

/-- The place that a binding error names. -/
def BindingError.place (error : BindingError) : Place := .atLexeme error.lexeme

/-- The error with its line and place, as one line of text. -/
def BindingError.display (error : BindingError) : String :=
  staticDisplay error.span error.place error.message

namespace Binding

/-- A name declared in a scope, and whether its initializer is behind. -/
structure Local where
  name : String
  ready : Bool
deriving DecidableEq, Repr

/-- The names of one local scope, in the order of their declarations. -/
abbrev Scope := List Local

/-- The slot of a name in a scope. -/
def Scope.slot? (scope : Scope) (name : String) : Option Nat :=
  scope.findIdx? (·.name == name)

/-- Whether a scope declares a name whose initializer is not yet behind. -/
def Scope.isPending (scope : Scope) (name : String) : Bool :=
  scope.any fun entry => entry.name == name && !entry.ready

/-- Declares a name, not yet ready, behind the others. -/
def Scope.declare (scope : Scope) (name : String) : Scope :=
  scope ++ [⟨name, false⟩]

/-- Marks a name as ready. -/
def Scope.define (scope : Scope) (name : String) : Scope :=
  scope.map fun entry => if entry.name == name then { entry with ready := true } else entry

/-- A scope that binds one implicit name. -/
def Scope.implicit (name : String) : Scope := [⟨name, true⟩]

/-- The same variable, seen from one scope further in. -/
def inward (address : Address) : Address := { address with depth := address.depth + 1 }

/-- The address of a name in a stack of scopes, innermost first. -/
def address? (name : String) : List Scope → Option Address
  | [] => none
  | scope :: outer =>
      match scope.slot? name with
      | some slot => some ⟨0, slot⟩
      | none => (address? name outer).map inward

end Binding

end Lox
