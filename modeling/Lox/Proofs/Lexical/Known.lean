import Lox.Proofs.Binding.Bound
import Lox.Proofs.Lexical.Cells
import Lox.Proofs.Requests

/-!
Contract: what a world knows.

A world knows a place if the activations that the place sees are there with the names
that it sees; a function, if it was made at a place that the world knows and its tree
is bound there; a value, if it knows all that the value is made of. A world is `Sound`
if it knows all that it holds.

A world only ever grows: activations stay inside their places and lose no names. So
what is known once is known ever after.

Owns: `Sound`, `Grows`, and that knowledge lasts. Does not own: which steps keep a
world sound.
-/

set_option autoImplicit false

namespace Lox.Lexical

open Binding

/-- The names in sight at a place, as a context. -/
def viewFrom (place : Place) : Context := place.map Sight.names

namespace World

/-! ## Places, functions and values -/

/-- The activations that the place sees are there, each inside the rest of the place
and with the names that the place sees. -/
def KnowsPlace (world : World) : Place → Prop
  | [] => True
  | sight :: outer =>
      (∃ activation, world.activations[sight.activation]? = some activation ∧
        activation.outer = outer ∧ sight.names <+: activation.cells.names) ∧
        world.KnowsPlace outer

/-- The function was made at a known place, and its tree is bound there. The place of
an initializer is an activation of `this`. -/
structure KnowsFunction (world : World) (function : Function) : Prop where
  made : function.identity < world.homes.size
  home : world.KnowsPlace (world.home function)
  closure : function.closure = innermost (world.home function)
  bound : boundFunction (viewFrom (world.home function)) function.declaration
  receiver : function.isInitializer = true →
    ∃ ref outer, world.home function = ⟨ref, ["this"]⟩ :: outer

/-- The method was made at a known place, and its tree is bound inside an activation
of `this` there. -/
structure KnowsMethod (world : World) (method : Function) : Prop where
  made : method.identity < world.homes.size
  home : world.KnowsPlace (world.home method)
  closure : method.closure = innermost (world.home method)
  bound : boundFunction (["this"] :: viewFrom (world.home method)) method.declaration

/-- The methods of the class and of its superclasses are known. -/
inductive KnowsClass (world : World) : Class → Prop
  | base {identity : Identity} {name : String} {methods : Table Function}
      (known : ∀ entry ∈ methods.entries, world.KnowsMethod entry.2) :
      KnowsClass world (.mk identity name none methods)
  | derived {identity : Identity} {name : String} {superclass : Class} {methods : Table Function}
      (inherited : KnowsClass world superclass)
      (known : ∀ entry ∈ methods.entries, world.KnowsMethod entry.2) :
      KnowsClass world (.mk identity name (some superclass) methods)

/-- All that the value is made of is known. -/
def Knows (world : World) : Value → Prop
  | .function function => world.KnowsFunction function
  | .native native => native.number < world.natives.size
  | .class cls => world.KnowsClass cls
  | .instance object => world.KnowsClass object.origin
  | _ => True

/-! ## Activations and worlds -/

/-- The value may stand under the name: under `this` stand instances, under `super`
classes. -/
structure KnowsEntry (world : World) (entry : String × Value) : Prop where
  value : world.Knows entry.2
  receiver : entry.1 = "this" → ∃ object, entry.2 = .instance object
  inherited : entry.1 = "super" → ∃ superclass, entry.2 = .class superclass

/-- The cells of the activation are laid out. -/
structure KnowsActivation (world : World) (activation : Activation) : Prop where
  outer : world.KnowsPlace activation.outer
  distinct : activation.cells.names.Nodup
  cells : ∃ filled pending, activation.cells = laidOut filled pending ∧
    (∀ entry ∈ filled, world.KnowsEntry entry) ∧ ∀ name ∈ pending, Plain name

/-- The world knows all that it holds, and writes to this outlet. -/
structure Sound (world : World) (outlet : Outlet) : Prop where
  activations : ∀ (ref : EnvironmentRef) (activation : Activation),
    world.activations[ref]? = some activation → world.KnowsActivation activation
  globals : ∀ entry ∈ world.globals.entries, world.Knows entry.2
  fields : ∀ (object : Identity) (fields : Table Value), world.fields[object]? = some fields →
    ∀ entry ∈ fields.entries, world.Knows entry.2
  natives : ∀ (number : Nat) (operation : Operation),
    world.natives[number]? = some operation → operation.AnswersFrom world.Knows
  outlet : world.outlet = outlet

/-! ## Growth -/

/-- Nothing that a value may need has got lost, and the outlet is the same. -/
structure Grows (before after : World) : Prop where
  homes : ∀ (identity : Identity) (home : Place), before.homes[identity]? = some home →
    after.homes[identity]? = some home
  activations : ∀ (ref : EnvironmentRef) (activation : Activation),
    before.activations[ref]? = some activation →
      ∃ grown, after.activations[ref]? = some grown ∧ grown.outer = activation.outer ∧
        activation.cells.names <+: grown.cells.names
  natives : before.natives.size ≤ after.natives.size
  outlet : after.outlet = before.outlet

theorem Grows.of_same {before after : World} (homes : after.homes = before.homes)
    (activations : after.activations = before.activations)
    (natives : after.natives = before.natives) (outlet : after.outlet = before.outlet) :
    Grows before after where
  homes _ _ found := homes ▸ found
  activations _ activation found := ⟨activation, activations ▸ found, rfl, List.prefix_rfl⟩
  natives := natives ▸ Nat.le_refl _
  outlet := outlet

theorem Grows.refl (world : World) : Grows world world := .of_same rfl rfl rfl rfl

theorem Grows.trans {first second third : World} (one : Grows first second)
    (two : Grows second third) : Grows first third where
  homes identity home found := two.homes identity home (one.homes identity home found)
  activations ref activation found := by
    obtain ⟨grown, there, sameOuter, fewer⟩ := one.activations ref activation found
    obtain ⟨later, here, stillOuter, more⟩ := two.activations ref grown there
    exact ⟨later, here, stillOuter.trans sameOuter, fewer.trans more⟩
  natives := Nat.le_trans one.natives two.natives
  outlet := two.outlet.trans one.outlet

variable {before after : World}

theorem Grows.home (grows : Grows before after) {function : Function}
    (made : function.identity < before.homes.size) :
    after.home function = before.home function := by
  have found : before.homes[function.identity]? = some before.homes[function.identity] :=
    Array.getElem?_eq_getElem made
  unfold World.home
  rw [grows.homes _ _ found, found]

theorem Grows.made (grows : Grows before after) {identity : Nat}
    (made : identity < before.homes.size) : identity < after.homes.size := by
  have found := grows.homes identity _ (Array.getElem?_eq_getElem made)
  exact (Array.getElem?_eq_some_iff.mp found).1

theorem Grows.lt_size (grows : Grows before after) {ref : EnvironmentRef}
    (present : ref < before.activations.size) : ref < after.activations.size := by
  obtain ⟨_, found, _⟩ := grows.activations ref _ (Array.getElem?_eq_getElem present)
  exact (Array.getElem?_eq_some_iff.mp found).1

theorem KnowsPlace.mono {place : Place} (known : before.KnowsPlace place)
    (grows : Grows before after) : after.KnowsPlace place := by
  induction place with
  | nil => trivial
  | cons sight outer inductionHypothesis =>
      obtain ⟨⟨activation, found, sameOuter, seen⟩, rest⟩ := known
      obtain ⟨grown, there, stillOuter, more⟩ := grows.activations _ _ found
      exact ⟨⟨grown, there, stillOuter.trans sameOuter, seen.trans more⟩, inductionHypothesis rest⟩

theorem KnowsFunction.mono {function : Function} (known : before.KnowsFunction function)
    (grows : Grows before after) : after.KnowsFunction function := by
  have sameHome := grows.home known.made
  exact
    { made := grows.made known.made
      home := sameHome ▸ known.home.mono grows
      closure := sameHome ▸ known.closure
      bound := sameHome ▸ known.bound
      receiver := sameHome ▸ known.receiver }

theorem KnowsMethod.mono {method : Function} (known : before.KnowsMethod method)
    (grows : Grows before after) : after.KnowsMethod method := by
  have sameHome := grows.home known.made
  exact
    { made := grows.made known.made
      home := sameHome ▸ known.home.mono grows
      closure := sameHome ▸ known.closure
      bound := sameHome ▸ known.bound }

theorem KnowsClass.mono {cls : Class} (known : before.KnowsClass cls)
    (grows : Grows before after) : after.KnowsClass cls := by
  induction known with
  | base known => exact .base fun entry member => (known entry member).mono grows
  | derived _ known inductionHypothesis =>
      exact .derived inductionHypothesis fun entry member => (known entry member).mono grows

theorem Knows.mono {value : Value} (known : before.Knows value) (grows : Grows before after) :
    after.Knows value := by
  cases value with
  | function function => exact KnowsFunction.mono known grows
  | native native => exact Nat.lt_of_lt_of_le known grows.natives
  | «class» cls => exact KnowsClass.mono known grows
  | «instance» object => exact KnowsClass.mono known grows
  | _ => trivial

theorem KnowsEntry.mono {entry : String × Value} (known : before.KnowsEntry entry)
    (grows : Grows before after) : after.KnowsEntry entry :=
  ⟨known.value.mono grows, known.receiver, known.inherited⟩

theorem KnowsActivation.mono {activation : Activation} (known : before.KnowsActivation activation)
    (grows : Grows before after) : after.KnowsActivation activation where
  outer := known.outer.mono grows
  distinct := known.distinct
  cells := by
    obtain ⟨filled, pending, cells, entries, plain⟩ := known.cells
    exact ⟨filled, pending, cells, fun entry member => (entries entry member).mono grows, plain⟩

/-- What can be had from known values is known. -/
theorem Knows.of_from {world : World} {given : Value → Prop}
    (known : ∀ value, given value → world.Knows value) {value : Value} (has : value.From given) :
    world.Knows value := by
  induction has with
  | given isGiven => exact known _ isGiven
  | origin _ inductionHypothesis => exact inductionHypothesis
  | superclass _ inductionHypothesis =>
      cases inductionHypothesis with
      | derived inherited _ => exact inherited
  | _ => trivial

/-- A plain name may stand for any value. -/
theorem Knows.entry {world : World} {value : Value} (known : world.Knows value) {name : String}
    (plain : Plain name) : world.KnowsEntry (name, value) :=
  ⟨known, fun same => absurd same (plain_ne_this plain),
    fun same => absurd same (plain_ne_super plain)⟩

/-- Of a class that is known every method is, inherited or not. -/
theorem KnowsClass.method? {world : World} {cls : Class} (known : world.KnowsClass cls)
    {name : String} {method : Function} (found : cls.method? name = some method) :
    world.KnowsMethod method := by
  induction known with
  | base known =>
      simp only [Class.method?] at found
      exact known _ (Table.mem_of_find? found)
  | @derived _ _ _ methods _ known inductionHypothesis =>
      simp only [Class.method?] at found
      cases own : methods.find? name with
      | none => exact inductionHypothesis (by simpa only [own] using found)
      | some first =>
          obtain rfl : first = method := by simpa only [own, Option.some.injEq] using found
          exact known _ (Table.mem_of_find? own)

theorem KnowsClass.initializer? {world : World} {cls : Class} (known : world.KnowsClass cls)
    {initializer : Function} (found : cls.initializer? = some initializer) :
    world.KnowsMethod initializer :=
  known.method? (Option.filter_eq_some_iff.mp found).1

end World

end Lox.Lexical
