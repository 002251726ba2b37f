import Lox.Environment
import Lox.Number.Layout
import Lox.Syntax
import Lox.Table

/-!
Contract: the values of programs.

Functions, classes, instances and natives have an identity, given when they come
to be: two of them are equal only when they are the same. Methods are looked up
in a class and then in its superclasses, nearest first. The fields of an
instance change and are therefore kept elsewhere, under its identity.

Owns: values, their equality, truth and text, method look-up, arity.
-/

namespace Lox

/-- Tells apart things that look alike. -/
abbrev Identity := Nat

/-- A function together with the environment around its declaration, none at top
level. -/
structure Function where
  identity : Identity
  declaration : FunctionDeclaration
  closure : Option EnvironmentRef
  isInitializer : Bool

/-- A class: its name, its superclass and its own methods. -/
inductive Class where
  | mk (identity : Identity) (name : String) (superclass : Option Class)
      (methods : Table Function)

/-- An instance of a class. -/
structure Instance where
  identity : Identity
  origin : Class

/-- A function that the host provides: its number among them and its arity. -/
structure Native where
  number : Nat
  arity : Nat
deriving DecidableEq, Repr

/-- The values of programs. -/
inductive Value where
  | nil
  | boolean (value : Bool)
  | number (value : Float)
  | string (value : String)
  | function (value : Function)
  | native (value : Native)
  | class (value : Class)
  | instance (value : Instance)

namespace Class

/-- What tells the class apart. -/
def identity : Class → Identity
  | mk identity _ _ _ => identity

/-- The name of the class. -/
def name : Class → String
  | mk _ name _ _ => name

/-- The superclass, if the class has one. -/
def superclass : Class → Option Class
  | mk _ _ superclass _ => superclass

/-- The methods that the class itself declares. -/
def methods : Class → Table Function
  | mk _ _ _ methods => methods

/-- The method of this name, of the class itself or of the nearest superclass
that has one. -/
def method? (wanted : String) : Class → Option Function
  | mk _ _ none methods => methods.find? wanted
  | mk _ _ (some superclass) methods =>
      match methods.find? wanted with
      | some found => some found
      | none => superclass.method? wanted

/-- The method that runs when the class makes an instance. A getter is none. -/
def initializer? (cls : Class) : Option Function :=
  (cls.method? initializerName).filter (!·.declaration.isGetter)

end Class

/-- How many arguments a function takes. -/
def Function.arity (function : Function) : Nat := function.declaration.parameters.length

/-- What parentheses may follow. -/
inductive Callable where
  | function (value : Function)
  | native (value : Native)
  | class (value : Class)

/-- How many arguments a callable takes: a class as many as its initializer. -/
def Callable.arity : Callable → Nat
  | .function callee => callee.arity
  | .native callee => callee.arity
  | .class callee =>
      match callee.initializer? with
      | some initializer => initializer.arity
      | none => 0

namespace Value

/-- All values but `nil` and `false` count as true. -/
def isTruthy : Value → Bool
  | .nil => false
  | .boolean value => value
  | _ => true

/-- The value as something to call, if it is such. -/
def callable? : Value → Option Callable
  | .function found => some (.function found)
  | .native found => some (.native found)
  | .class found => some (.class found)
  | _ => none

/-- Whether two values are equal: by content where they have some, and by
identity otherwise. Values of different sorts differ, and a number that is none
differs from itself. -/
def equal : Value → Value → Bool
  | .nil, .nil => true
  | .boolean left, .boolean right => left == right
  | .number left, .number right => left == right
  | .string left, .string right => left == right
  | .function left, .function right => left.identity == right.identity
  | .native left, .native right => left.number == right.number
  | .class left, .class right => left.identity == right.identity
  | .instance left, .instance right => left.identity == right.identity
  | _, _ => false

/-- The text that `print` writes for a value. -/
def display : Value → String
  | .nil => "nil"
  | .boolean value => if value then "true" else "false"
  | .number value => Number.Layout.value.text value
  | .string value => value
  | .function found => "<fn " ++ found.declaration.name.text ++ ">"
  | .native _ => "<native fn>"
  | .class found => found.name
  | .instance found => found.origin.name ++ " instance"

end Value

/-- The value that a literal stands for. -/
def Literal.value : Literal → Value
  | .nil => .nil
  | .boolean value => .boolean value
  | .number value => .number value
  | .string value => .string value

end Lox
