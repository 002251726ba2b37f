/-!
Contract: environments that share their outer scopes.

An environment holds the values of one activation of a local scope, in slots
numbered in the order of definition, and knows the environment around it. The
environments of a run form a forest; each is known by the order of its creation,
so that whoever holds the same number shares the same slots. An address reaches
outwards so many environments and then selects a slot.

Owns: creation, definition, reading and assignment through addresses. Does not
own: which addresses a program uses.
-/

namespace Lox

/-- The number of an environment in its forest. -/
abbrev EnvironmentRef := Nat

/-- The values of one activation of a local scope. -/
structure Environment (α : Type) where
  enclosing : Option EnvironmentRef
  slots : Array α

/-- All environments created so far. -/
structure Forest (α : Type) where
  environments : Array (Environment α)

namespace Forest

variable {α : Type}

/-- The forest without environments. -/
def empty : Forest α := ⟨#[]⟩

/-- The number that the next environment gets. -/
def next (forest : Forest α) : EnvironmentRef := forest.environments.size

/-- Creates an environment inside another one, or inside none, that holds these
values. Its number is the forest's `next`. -/
def create (forest : Forest α) (enclosing : Option EnvironmentRef) (values : Array α) :
    Forest α :=
  ⟨forest.environments.push ⟨enclosing, values⟩⟩

/-- Defines a value in the next slot of an environment. -/
def define (forest : Forest α) (ref : EnvironmentRef) (value : α) : Forest α :=
  ⟨forest.environments.modify ref fun environment =>
    { environment with slots := environment.slots.push value }⟩

/-- The environment around an environment. -/
def enclosing? (forest : Forest α) (ref : EnvironmentRef) : Option EnvironmentRef :=
  (forest.environments[ref]?).bind Environment.enclosing

/-- The environment so many steps outwards. -/
def ancestor? (forest : Forest α) (ref : EnvironmentRef) : Nat → Option EnvironmentRef
  | 0 => some ref
  | depth + 1 => (forest.enclosing? ref).bind fun outer => forest.ancestor? outer depth

/-- The value in a slot of an environment itself. -/
def slot? (forest : Forest α) (ref : EnvironmentRef) (slot : Nat) : Option α :=
  (forest.environments[ref]?).bind fun environment => environment.slots[slot]?

/-- The value at an address, seen from an environment. -/
def getAt? (forest : Forest α) (ref : EnvironmentRef) (depth slot : Nat) : Option α :=
  (forest.ancestor? ref depth).bind fun target => forest.slot? target slot

/-- Puts a value into a slot of an environment itself. -/
def setSlot (forest : Forest α) (ref : EnvironmentRef) (slot : Nat) (value : α) : Forest α :=
  ⟨forest.environments.modify ref fun environment =>
    { environment with slots := environment.slots.setIfInBounds slot value }⟩

/-- Whether there is a value at an address, seen from an environment. -/
def reaches (forest : Forest α) (ref : EnvironmentRef) (depth slot : Nat) : Bool :=
  (forest.getAt? ref depth slot).isSome

/-- Assigns the value at an address. Without one, nothing changes. -/
def assignAt (forest : Forest α) (ref : EnvironmentRef) (depth slot : Nat) (value : α) :
    Forest α :=
  match forest.ancestor? ref depth with
  | none => forest
  | some target => forest.setSlot target slot value

/-- Goes outwards and puts the value into the slot that is selected there, if the
way is long enough and the slot is filled. -/
def assignAt? (forest : Forest α) (ref : EnvironmentRef) (depth slot : Nat) (value : α) :
    Option (Forest α) :=
  (forest.ancestor? ref depth).bind fun target =>
    (forest.environments[target]?).bind fun environment =>
      if slot < environment.slots.size then some (forest.setSlot target slot value) else none

/-! ## What changes keep -/

theorem enclosing?_define (forest : Forest α) (ref other : EnvironmentRef) (value : α) :
    (forest.define ref value).enclosing? other = forest.enclosing? other := by
  by_cases same : ref = other
  · subst same
    cases present : forest.environments[ref]? <;>
      simp [define, enclosing?, Array.getElem?_modify, present]
  · simp [define, enclosing?, Array.getElem?_modify, same]

theorem enclosing?_setSlot (forest : Forest α) (ref other : EnvironmentRef) (slot : Nat)
    (value : α) : (forest.setSlot ref slot value).enclosing? other = forest.enclosing? other := by
  by_cases same : ref = other
  · subst same
    cases present : forest.environments[ref]? <;>
      simp [setSlot, enclosing?, Array.getElem?_modify, present]
  · simp [setSlot, enclosing?, Array.getElem?_modify, same]

/-- Where addresses lead depends on the enclosing environments alone. -/
theorem ancestor?_eq_of_enclosing? {first second : Forest α}
    (agreement : ∀ ref, first.enclosing? ref = second.enclosing? ref)
    (ref : EnvironmentRef) (depth : Nat) :
    first.ancestor? ref depth = second.ancestor? ref depth := by
  induction depth generalizing ref with
  | zero => rfl
  | succ depth inductionHypothesis =>
      simp only [ancestor?, agreement]
      exact congrArg _ (funext inductionHypothesis)

/-- Setting a slot changes that slot, if it exists, and no other. -/
theorem slot?_setSlot (forest : Forest α) (ref other : EnvironmentRef) (slot index : Nat)
    (value : α) :
    (forest.setSlot ref slot value).slot? other index =
      if ref = other ∧ slot = index then (forest.slot? other index).map fun _ => value
      else forest.slot? other index := by
  by_cases same : ref = other
  · subst same
    cases present : forest.environments[ref]? with
    | none => simp [setSlot, slot?, Array.getElem?_modify, present]
    | some environment =>
        by_cases here : slot = index
        · subst here
          simp [setSlot, slot?, Array.getElem?_modify, present, Array.getElem?_setIfInBounds]
          split <;> simp_all
        · simp [setSlot, slot?, Array.getElem?_modify, present, here]
  · simp [setSlot, slot?, Array.getElem?_modify, same]

end Forest

end Lox
