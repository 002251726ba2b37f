import Mathlib.Data.List.Forall2
import Lox.Machine.Operators
import Lox.Proofs.Unfolding.Tree
import Lox.World

/-!
Contract: values of two runs, one of a program and one of the program with loops written out.

Such values are alike: they are equal but for the bodies of functions, which compare as trees,
and for the environments around functions, which are others where more blocks stand around a
place. Nothing that a program does with values tells two of them apart.

What a native of the host does with its arguments is not known. A native is `Discreet` if it
gives alike answers to alike arguments: it does not look into functions.

Owns: `Value.Alike` and what the operations on values make of it. Does not own: environments.
-/

set_option autoImplicit false

namespace Lox

/-! ## Tables -/

/-- The tables have the same names in the same order, with related values. -/
def Table.Alike {α : Type} (alike : α → α → Prop) (table other : Table α) : Prop :=
  List.Forall₂ (fun entry entry' => entry'.1 = entry.1 ∧ alike entry.2 entry'.2)
    table.entries other.entries

namespace Table

variable {α : Type} {alike : α → α → Prop} {table other : Table α}

theorem alike_empty : Alike alike (empty : Table α) empty := .nil

theorem Alike.refl (reflexive : ∀ value, alike value value) (table : Table α) :
    Alike alike table table :=
  List.forall₂_same.mpr fun entry _ => ⟨rfl, reflexive entry.2⟩

theorem Alike.names (tables : Alike alike table other) : other.names = table.names := by
  obtain ⟨entries⟩ := table
  obtain ⟨others⟩ := other
  simp only [Alike, Table.names] at tables ⊢
  induction tables with
  | nil => rfl
  | cons here _ inductionHypothesis => simp [here.1, inductionHypothesis]

theorem Alike.find? (tables : Alike alike table other) (name : String) :
    Option.Rel alike (table.find? name) (other.find? name) := by
  obtain ⟨entries⟩ := table
  obtain ⟨others⟩ := other
  simp only [Alike, Table.find?] at tables ⊢
  induction tables with
  | nil => exact .none
  | @cons entry entry' _ _ here _ inductionHypothesis =>
      obtain ⟨key, value⟩ := entry
      obtain ⟨key', value'⟩ := entry'
      obtain ⟨rfl, both⟩ : key' = key ∧ alike value value' := here
      by_cases same : key' = name
      · simpa [findIn, same] using Option.Rel.some both
      · simpa [findIn, same] using inductionHypothesis

theorem Alike.insert (tables : Alike alike table other) (name : String) {value value' : α}
    (both : alike value value') : Alike alike (table.insert name value) (other.insert name value') := by
  obtain ⟨entries⟩ := table
  obtain ⟨others⟩ := other
  simp only [Alike, Table.insert] at tables ⊢
  induction tables with
  | nil => exact .cons ⟨rfl, both⟩ .nil
  | @cons entry entry' _ _ here rest inductionHypothesis =>
      obtain ⟨key, old⟩ := entry
      obtain ⟨key', old'⟩ := entry'
      obtain ⟨rfl, bothOld⟩ : key' = key ∧ alike old old' := here
      by_cases same : key' = name
      · simp only [insertIn, same, if_true]
        exact .cons ⟨rfl, both⟩ rest
      · simp only [insertIn, same, if_false]
        exact .cons ⟨rfl, bothOld⟩ inductionHypothesis

theorem alike_ofList {entries others : List (String × α)}
    (both : List.Forall₂ (fun entry entry' => entry'.1 = entry.1 ∧ alike entry.2 entry'.2)
      entries others) : Alike alike (ofList entries) (ofList others) := by
  have general : ∀ {front front' : Table α}, Alike alike front front' →
      Alike alike (entries.foldl (fun table entry => table.insert entry.1 entry.2) front)
        (others.foldl (fun table entry => table.insert entry.1 entry.2) front') := by
    induction both with
    | nil => exact fun tables => tables
    | cons here _ inductionHypothesis =>
        intro front front' tables
        simp only [List.foldl_cons, here.1]
        exact inductionHypothesis (tables.insert _ here.2)
  exact general alike_empty

end Table

/-! ## Functions, classes and values -/

/-- The functions are the same but for their bodies and environments. -/
structure Function.Alike (function other : Function) : Prop where
  identity : other.identity = function.identity
  declaration : FunctionUnfolds function.declaration other.declaration
  isInitializer : other.isInitializer = function.isInitializer

/-- The classes are the same but for the bodies and environments of their methods. -/
inductive Class.Alike : Class → Class → Prop
  | base {identity : Identity} {name : String} {methods methods' : Table Function}
      (own : Table.Alike Function.Alike methods methods') :
      Class.Alike (.mk identity name none methods) (.mk identity name none methods')
  | derived {identity : Identity} {name : String} {superclass superclass' : Class}
      {methods methods' : Table Function} (inherited : Class.Alike superclass superclass')
      (own : Table.Alike Function.Alike methods methods') :
      Class.Alike (.mk identity name (some superclass) methods)
        (.mk identity name (some superclass') methods')

/-- The instances are the same but for the methods of their classes. -/
structure Instance.Alike (object other : Instance) : Prop where
  identity : other.identity = object.identity
  origin : object.origin.Alike other.origin

/-- The values are the same but for the bodies and environments of functions. -/
inductive Value.Alike : Value → Value → Prop
  | nil : Value.Alike .nil .nil
  | boolean (value : Bool) : Value.Alike (.boolean value) (.boolean value)
  | number (value : Float) : Value.Alike (.number value) (.number value)
  | string (value : String) : Value.Alike (.string value) (.string value)
  | function {function other : Function} (alike : function.Alike other) :
      Value.Alike (.function function) (.function other)
  | native (value : Native) : Value.Alike (.native value) (.native value)
  | class {cls other : Class} (alike : cls.Alike other) : Value.Alike (.class cls) (.class other)
  | instance {object other : Instance} (alike : object.Alike other) :
      Value.Alike (.instance object) (.instance other)

theorem Function.Alike.refl (function : Function) : function.Alike function :=
  ⟨rfl, .refl _, rfl⟩

theorem Class.Alike.refl : (cls : Class) → cls.Alike cls
  | .mk _ _ none methods => .base (.refl .refl methods)
  | .mk _ _ (some superclass) methods => .derived (.refl superclass) (.refl .refl methods)

theorem Value.Alike.refl (value : Value) : value.Alike value := by
  cases value with
  | nil => exact .nil
  | boolean value => exact .boolean value
  | number value => exact .number value
  | string value => exact .string value
  | function function => exact .function (.refl function)
  | native native => exact .native native
  | «class» cls => exact .class (.refl cls)
  | «instance» object => exact .instance ⟨rfl, .refl _⟩

namespace Class.Alike

variable {cls other : Class}

theorem name (alike : cls.Alike other) : other.name = cls.name := by
  cases alike <;> rfl

theorem identity (alike : cls.Alike other) : other.identity = cls.identity := by
  cases alike <;> rfl

theorem method? (alike : cls.Alike other) (wanted : String) :
    Option.Rel Function.Alike (cls.method? wanted) (other.method? wanted) := by
  induction alike with
  | base own => exact own.find? wanted
  | derived _ own inductionHypothesis =>
      have here := own.find? wanted
      simp only [Class.method?]
      revert here
      generalize Table.find? _ wanted = found
      generalize Table.find? _ wanted = found'
      rintro (both | _)
      · exact .some both
      · exact inductionHypothesis

theorem initializer? (alike : cls.Alike other) :
    Option.Rel Function.Alike cls.initializer? other.initializer? := by
  have found := alike.method? initializerName
  simp only [Class.initializer?]
  revert found
  generalize cls.method? initializerName = method
  generalize other.method? initializerName = method'
  rintro (both | _)
  · have sameGetter := both.declaration.isGetter
    simp only [Option.filter_some, sameGetter]
    split
    · exact .some both
    · exact .none
  · exact .none

end Class.Alike

theorem Function.Alike.arity {function other : Function} (alike : function.Alike other) :
    other.arity = function.arity := by
  have sameLength := congrArg List.length alike.declaration.parameters
  simpa only [List.length_map, Function.arity] using sameLength

/-- The callables are the same but for the bodies and environments of functions. -/
inductive Callable.Alike : Callable → Callable → Prop
  | function {function other : Function} (alike : function.Alike other) :
      Callable.Alike (.function function) (.function other)
  | native (native : Native) : Callable.Alike (.native native) (.native native)
  | class {cls other : Class} (alike : cls.Alike other) : Callable.Alike (.class cls) (.class other)

theorem Callable.Alike.arity {callable other : Callable} (alike : callable.Alike other) :
    other.arity = callable.arity := by
  cases alike with
  | function alike => exact alike.arity
  | native native => rfl
  | «class» alike =>
      have found := alike.initializer?
      simp only [Callable.arity]
      revert found
      generalize Class.initializer? _ = initializer
      generalize Class.initializer? _ = initializer'
      rintro (both | _)
      · exact both.arity
      · rfl

namespace Value.Alike

variable {value other : Value}

theorem isTruthy (alike : value.Alike other) : other.isTruthy = value.isTruthy := by
  cases alike <;> rfl

theorem display (alike : value.Alike other) : other.display = value.display := by
  cases alike with
  | function alike => simp only [Value.display, alike.declaration.name]
  | «class» alike => simp only [Value.display, alike.name]
  | «instance» alike => simp only [Value.display, alike.origin.name]
  | _ => rfl

theorem callable? (alike : value.Alike other) :
    Option.Rel Callable.Alike value.callable? other.callable? := by
  cases alike with
  | function alike => exact .some (.function alike)
  | native native => exact .some (.native native)
  | «class» alike => exact .some (.class alike)
  | _ => exact .none

theorem equal {left left' right right' : Value} (alikeLeft : left.Alike left')
    (alikeRight : right.Alike right') : left'.equal right' = left.equal right := by
  cases alikeLeft with
  | function alike =>
      cases alikeRight with
      | function alikeToo => simp only [Value.equal, alike.identity, alikeToo.identity]
      | _ => rfl
  | «class» alike =>
      cases alikeRight with
      | «class» alikeToo => simp only [Value.equal, alike.identity, alikeToo.identity]
      | _ => rfl
  | «instance» alike =>
      cases alikeRight with
      | «instance» alikeToo => simp only [Value.equal, alike.identity, alikeToo.identity]
      | _ => rfl
  | _ => cases alikeRight <;> rfl

end Value.Alike

/-! ## Operators -/

/-- Alike values, or failures of the same kind. -/
inductive Result.Alike {ε : Type} (alike : ε → ε → Prop) : Except ε Value → Except ε Value → Prop
  | ok {value other : Value} (both : value.Alike other) : Result.Alike alike (.ok value) (.ok other)
  | error {failure other : ε} (both : alike failure other) :
      Result.Alike alike (.error failure) (.error other)

theorem Result.Alike.same {ε : Type} (result : Except ε Value) : Result.Alike Eq result result := by
  cases result with
  | ok value => exact .ok (.refl value)
  | error failure => exact .error rfl

theorem UnaryOperator.alike_apply (operator : UnaryOperator) {operand other : Value}
    (alike : operand.Alike other) :
    Result.Alike Eq (operator.apply operand) (operator.apply other) := by
  cases operator with
  | negate => cases alike <;> exact .same _
  | not =>
      simp only [UnaryOperator.apply, alike.isTruthy]
      exact .same _

theorem BinaryOperator.alike_apply (operator : BinaryOperator) {left left' right right' : Value}
    (alikeLeft : left.Alike left') (alikeRight : right.Alike right') :
    Result.Alike Eq (operator.apply left right) (operator.apply left' right') := by
  cases operator with
  | equal =>
      simp only [BinaryOperator.apply, alikeLeft.equal alikeRight]
      exact .same _
  | notEqual =>
      simp only [BinaryOperator.apply, alikeLeft.equal alikeRight]
      exact .same _
  | _ => cases alikeLeft <;> cases alikeRight <;> exact .same _

theorem LogicalOperator.isDecidedBy_alike (operator : LogicalOperator) {value other : Value}
    (alike : value.Alike other) : operator.isDecidedBy other = operator.isDecidedBy value := by
  cases operator <;> simp only [LogicalOperator.isDecidedBy, alike.isTruthy]

/-! ## Natives -/

/-- The native gives alike answers to alike arguments. -/
def Operation.Discreet (operation : Operation) : Prop :=
  ∀ moment arguments others, List.Forall₂ Value.Alike arguments others →
    Result.Alike Eq (operation.answer moment arguments) (operation.answer moment others)

theorem Operation.discreet_clock (clock : Clock) : (Operation.clock clock).Discreet := by
  intro moment arguments others _
  simp only [Operation.clock]
  cases clock.reading moment with
  | ok seconds => exact .ok (.number seconds)
  | error reason => exact .error rfl

end Lox
