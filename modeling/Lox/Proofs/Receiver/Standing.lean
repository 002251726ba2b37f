import Lox.Proofs.Lexical.Step
import Lox.Proofs.Receiver.Ledger

/-!
Contract: what `this` and `super` mean at a place of a run by name.

At a place `this` is the instance in the innermost activation in which the name is in
sight; `super` begins with the class in the activation right around that one, if it is
one of `super`. So every place has a standing, and the homes of all functions together
have a ledger. No step changes the cell of a `this` or a `super`: their names are
none that a program can declare or assign.

Owns: the standing of a place, and that it lasts. Does not own: which steps make places.
-/

set_option autoImplicit false

namespace Lox.Lexical

open Binding

/-- A name that has an address is in sight. -/
theorem seenIn_of_addressed {name : String} {place : Place} {address : Address}
    (addressed : addressIn name (viewFrom place) = some address) :
    ∃ ref, seenIn name place = some ref := by
  induction place generalizing address with
  | nil => cases addressed
  | cons sight outer inductionHypothesis =>
      by_cases here : name ∈ sight.names
      · exact ⟨sight.activation, by simp [seenIn, here]⟩
      · have outwards : (addressIn name (viewFrom outer)).map inward = some address := by
          rw [← addressed]
          exact (addressIn_of_absent (viewFrom outer) here).symm
        obtain ⟨further, addressedOutside, _⟩ := Option.map_eq_some_iff.mp outwards
        obtain ⟨ref, seen⟩ := inductionHypothesis addressedOutside
        exact ⟨ref, by simp [seenIn, here, seen]⟩

namespace World

/-! ## Standings -/

/-- The instance in the cell of `this`. -/
def receiverIn (world : World) (ref : EnvironmentRef) : Option Instance :=
  match world.cell? ref "this" with
  | some (some (.instance object)) => some object
  | _ => none

/-- The class in the cell of `super`. -/
def superclassIn (world : World) (ref : EnvironmentRef) : Option Class :=
  match world.cell? ref "super" with
  | some (some (.class superclass)) => some superclass
  | _ => none

/-- The superclass that the methods declared at a place have. -/
def heritage (world : World) : Place → Option Class
  | [] => none
  | sight :: _ => if "super" ∈ sight.names then world.superclassIn sight.activation else none

/-- What `this` and `super` mean at a place. -/
def standing (world : World) : Place → Standing
  | [] => .outside
  | sight :: outer =>
      if "this" ∈ sight.names then ⟨world.receiverIn sight.activation, world.heritage outer⟩
      else world.standing outer

/-- What a function that is made at a place comes from. -/
def origin (world : World) (place : Place) : Origin :=
  ⟨world.standing place, world.heritage place⟩

/-- The origins of all functions. -/
def ledger (world : World) : Ledger := world.homes.toList.map world.origin

/-- Only activations matter for what a function comes from. -/
theorem origin_of_activations {first second : World}
    (same : second.activations = first.activations) : second.origin = first.origin := by
  have sameReceiver (ref : EnvironmentRef) : second.receiverIn ref = first.receiverIn ref := by
    simp only [receiverIn, cell?, same]
  have sameHeritage (place : Place) : second.heritage place = first.heritage place := by
    cases place with
    | nil => rfl
    | cons sight outer => simp only [heritage, superclassIn, cell?, same]
  have sameStanding (place : Place) : second.standing place = first.standing place := by
    induction place with
    | nil => rfl
    | cons sight outer inductionHypothesis =>
        simp only [standing, sameReceiver, sameHeritage, inductionHypothesis]
  funext place
  simp only [origin, sameStanding, sameHeritage]

/-! ## What lasts -/

/-- No cell of `this` or `super` has changed, and none has come to an activation. -/
def Upholds (before after : World) : Prop :=
  ∀ (ref : EnvironmentRef) (activation : Activation),
    before.activations[ref]? = some activation →
      ∃ later, after.activations[ref]? = some later ∧ later.outer = activation.outer ∧
        ∀ name, ¬ Plain name → later.cells.find? name = activation.cells.find? name

variable {before after world : World} {outlet : Outlet}

theorem Upholds.of_same (same : after.activations = before.activations) :
    Upholds before after := by
  intro ref activation found
  exact ⟨activation, same ▸ found, rfl, fun _ _ => rfl⟩

theorem Upholds.trans {first second third : World} (one : Upholds first second)
    (two : Upholds second third) : Upholds first third := by
  intro ref activation found
  obtain ⟨later, there, sameOuter, sameCells⟩ := one ref activation found
  obtain ⟨last, here, stillOuter, stillCells⟩ := two ref later there
  exact ⟨last, here, stillOuter.trans sameOuter,
    fun name special => (stillCells name special).trans (sameCells name special)⟩

theorem upholds_setCell (world : World) (ref : EnvironmentRef) {name : String} (plain : Plain name)
    (content : Option Value) : Upholds world (world.setCell ref name content) := by
  intro other activation found
  by_cases same : ref = other
  · subst same
    refine ⟨_, getElem?_setCell_self world ref name content found, rfl, ?_⟩
    intro wanted special
    have different : wanted ≠ name := fun equal => special (equal ▸ plain)
    exact Table.find?_insert_of_ne _ content different
  · exact ⟨activation, (getElem?_setCell_of_ne world ref name content same).trans found, rfl,
      fun _ _ => rfl⟩

theorem upholds_activate (world : World) (outer : Place) (names : List String)
    (values : List Value) : Upholds world (world.activate outer names values).2 := by
  intro ref activation found
  have present := (Array.getElem?_eq_some_iff.mp found).1
  refine ⟨activation, ?_, rfl, fun _ _ => rfl⟩
  rw [← found]
  exact Array.getElem?_push_lt present ▸ (Array.getElem?_eq_getElem present).symm

theorem Upholds.cell? (upholds : Upholds before after) {ref : EnvironmentRef}
    (present : ref < before.activations.size) {name : String} (special : ¬ Plain name) :
    after.cell? ref name = before.cell? ref name := by
  have found : before.activations[ref]? = some before.activations[ref] :=
    Array.getElem?_eq_getElem present
  obtain ⟨later, there, _, sameCells⟩ := upholds ref _ found
  simp only [World.cell?, there, found, Option.bind_some]
  exact sameCells name special

theorem Upholds.receiverIn (upholds : Upholds before after) {ref : EnvironmentRef}
    (present : ref < before.activations.size) : after.receiverIn ref = before.receiverIn ref := by
  unfold World.receiverIn
  rw [upholds.cell? present not_plain_this]

theorem Upholds.superclassIn (upholds : Upholds before after) {ref : EnvironmentRef}
    (present : ref < before.activations.size) :
    after.superclassIn ref = before.superclassIn ref := by
  unfold World.superclassIn
  rw [upholds.cell? present not_plain_super]

theorem KnowsPlace.present {sight : Sight} {outer : Place} (known : world.KnowsPlace (sight :: outer)) :
    sight.activation < world.activations.size := by
  obtain ⟨⟨activation, found, _⟩, _⟩ := known
  exact (Array.getElem?_eq_some_iff.mp found).1

theorem Upholds.heritage (upholds : Upholds before after) {place : Place}
    (known : before.KnowsPlace place) : after.heritage place = before.heritage place := by
  cases place with
  | nil => rfl
  | cons sight outer => simp only [World.heritage, upholds.superclassIn known.present]

theorem Upholds.standing (upholds : Upholds before after) {place : Place}
    (known : before.KnowsPlace place) : after.standing place = before.standing place := by
  induction place with
  | nil => rfl
  | cons sight outer inductionHypothesis =>
      simp only [World.standing, upholds.receiverIn known.present, upholds.heritage known.2,
        inductionHypothesis known.2]

theorem Upholds.origin (upholds : Upholds before after) {place : Place}
    (known : before.KnowsPlace place) : after.origin place = before.origin place := by
  unfold World.origin
  rw [upholds.standing known, upholds.heritage known]

/-- Names that come into sight in an activation are none of the two. -/
theorem Upholds.origin_placeAt (upholds : Upholds before after) (sound : before.Sound outlet)
    {scope : Option EnvironmentRef} (present : ∀ ref ∈ scope, ref < before.activations.size) :
    after.origin (after.placeAt scope) = before.origin (before.placeAt scope) := by
  cases scope with
  | none => rfl
  | some ref =>
      have inside := present ref rfl
      have found : before.activations[ref]? = some before.activations[ref] :=
        Array.getElem?_eq_getElem inside
      obtain ⟨later, there, sameOuter, sameCells⟩ := upholds ref _ found
      have known := (sound.activations ref _ found).outer
      have sameNames {name : String} (special : ¬ Plain name) :
          name ∈ later.cells.names ↔ name ∈ before.activations[ref].cells.names := by
        rw [← Table.isSome_find?_iff, ← Table.isSome_find?_iff, sameCells name special]
      simp only [World.origin, placeAt, placeIn, there, found, World.standing, World.heritage,
        sameOuter, sameNames not_plain_this, sameNames not_plain_super,
        upholds.receiverIn inside, upholds.superclassIn inside]
      have sameStanding := upholds.standing known
      have sameHeritage := upholds.heritage known
      rw [sameStanding]
      unfold World.heritage at sameHeritage
      rw [sameHeritage]

/-! ## Ledgers -/

theorem length_ledger (world : World) : world.ledger.length = world.homes.size := by
  simp [ledger]

theorem getElem?_ledger (world : World) (identity : Identity) :
    world.ledger[identity]? = (world.homes[identity]?).map world.origin := by
  simp [ledger]

theorem standingOf_ledger (world : World) (function : Function) :
    world.ledger.standingOf function = world.standing (world.home function) := by
  unfold Ledger.standingOf World.home
  rw [getElem?_ledger]
  cases world.homes[function.identity]? <;> rfl

theorem superclassOf_ledger (world : World) (method : Function) :
    world.ledger.superclassOf method = world.heritage (world.home method) := by
  unfold Ledger.superclassOf World.home
  rw [getElem?_ledger]
  cases world.homes[method.identity]? <;> rfl

/-- The homes of all functions are known. -/
def KnowsHomes (world : World) : Prop := ∀ home ∈ world.homes, world.KnowsPlace home

theorem KnowsHomes.mono (known : before.KnowsHomes) (grows : Grows before after)
    (homes : after.homes = before.homes) : after.KnowsHomes := by
  intro home member
  rw [homes] at member
  exact (known home member).mono grows

theorem Upholds.ledger (upholds : Upholds before after) (known : before.KnowsHomes)
    (homes : after.homes = before.homes) : after.ledger = before.ledger := by
  unfold World.ledger
  rw [homes]
  exact List.map_congr_left fun home member =>
    upholds.origin (known home (Array.mem_toList_iff.mp member))

section MakeFunction

variable (world) (declaration : FunctionDeclaration) (home : Place) (isInitializer : Bool)

theorem ledger_makeFunction :
    (world.makeFunction declaration home isInitializer).2.ledger =
      world.ledger ++ [world.origin home] := by
  have same : (world.makeFunction declaration home isInitializer).2.origin = world.origin :=
    origin_of_activations rfl
  unfold ledger
  rw [same]
  simp [makeFunction]

end MakeFunction

theorem KnowsHomes.pushHome (known : world.KnowsHomes) {place : Place}
    (knownPlace : world.KnowsPlace place) :
    KnowsHomes { world with homes := world.homes.push place } := by
  intro other member
  obtain old | rfl := Array.mem_push.mp member
  · exact (known other old).mono (grows_pushHome world place)
  · exact knownPlace.mono (grows_pushHome world other)

theorem ledger_makeMethods (world : World) (home : Place) (methods : List FunctionDeclaration) :
    (makeMethods home methods world).2.ledger =
      world.ledger ++ methods.map fun _ => world.origin home := by
  induction methods generalizing world with
  | nil => simp [makeMethods]
  | cons declaration rest inductionHypothesis =>
      have first := ledger_makeFunction world declaration home declaration.isInitializer
      have same : (world.makeFunction declaration home declaration.isInitializer).2.origin =
          world.origin := origin_of_activations rfl
      have others := inductionHypothesis
        (world.makeFunction declaration home declaration.isInitializer).2
      rw [first, same] at others
      simp only [makeMethods, List.map_cons]
      rw [others, List.append_assoc]
      rfl

theorem KnowsHomes.makeMethods (known : world.KnowsHomes) {home : Place}
    (knownHome : world.KnowsPlace home) (methods : List FunctionDeclaration) :
    (makeMethods home methods world).2.KnowsHomes := by
  induction methods generalizing world with
  | nil => exact known
  | cons declaration rest inductionHypothesis =>
      exact inductionHypothesis (known.pushHome knownHome)
        (knownHome.mono (grows_pushHome world home))

theorem activations_makeMethods (world : World) (home : Place)
    (methods : List FunctionDeclaration) :
    (makeMethods home methods world).2.activations = world.activations := by
  induction methods generalizing world with
  | nil => rfl
  | cons declaration rest inductionHypothesis =>
      exact inductionHypothesis (world.makeFunction declaration home declaration.isInitializer).2

theorem ledger_makeClass (world : World) (name : String) (superclass : Option Class) (home : Place)
    (methods : List FunctionDeclaration) :
    (world.makeClass name superclass home methods).2.ledger =
      world.ledger ++ ((methods.map fun _ => world.origin home) ++ [⟨.outside, none⟩]) := by
  have made := ledger_makeMethods world home methods
  have same : (world.makeClass name superclass home methods).2.origin =
      (makeMethods home methods world).2.origin := origin_of_activations rfl
  rw [← List.append_assoc, ← made]
  unfold ledger
  rw [same]
  simp [makeClass, origin, standing, heritage]

theorem KnowsHomes.makeClass (known : world.KnowsHomes) {home : Place}
    (knownHome : world.KnowsPlace home) (name : String) (superclass : Option Class)
    (methods : List FunctionDeclaration) :
    (world.makeClass name superclass home methods).2.KnowsHomes :=
  (known.makeMethods knownHome methods).pushHome trivial

/-! ## Binding -/

/-- Inside an activation of `this` the standing is that of the receiver. -/
theorem origin_bound (world : World) (home : Place) (receiver : Instance) :
    (world.activate home ["this"] [.instance receiver]).2.origin
        (⟨(world.activate home ["this"] [.instance receiver]).1, ["this"]⟩ :: home) =
      ⟨⟨some receiver,
        (world.activate home ["this"] [.instance receiver]).2.heritage home⟩, none⟩ := by
  have cell : (world.activate home ["this"] [.instance receiver]).2.cell?
      (world.activate home ["this"] [.instance receiver]).1 "this" =
        some (some (.instance receiver)) := by
    simp only [World.cell?, getElem?_activate]
    rfl
  simp [origin, standing, heritage, receiverIn, cell]

/-- To bind a method adds its entry to the ledger. -/
theorem ledger_bindMethod (known : world.KnowsHomes) {method : Function}
    (knownHome : world.KnowsPlace (world.home method)) (receiver : Instance) :
    (world.bindMethod method receiver).2.ledger = world.ledger.bind method receiver := by
  have upholds := upholds_activate world (world.home method) ["this"] [.instance receiver]
  have activated := upholds.ledger known rfl
  have made := ledger_makeFunction
    (world.activate (world.home method) ["this"] [.instance receiver]).2 method.declaration
    (⟨(world.activate (world.home method) ["this"] [.instance receiver]).1, ["this"]⟩ ::
      world.home method) method.isInitializer
  rw [activated, origin_bound, upholds.heritage knownHome, ← superclassOf_ledger] at made
  exact made

theorem KnowsHomes.bindMethod (known : world.KnowsHomes) {method : Function}
    (knownHome : world.KnowsPlace (world.home method)) (receiver : Instance) :
    (world.bindMethod method receiver).2.KnowsHomes := by
  have grown := known.mono
    (grows_activate world (world.home method) ["this"] [.instance receiver]) rfl
  exact grown.pushHome (knowsPlace_activate ["this"] [.instance receiver] knownHome rfl)

theorem upholds_bindMethod (world : World) (method : Function) (receiver : Instance) :
    Upholds world (world.bindMethod method receiver).2 :=
  (upholds_activate world (world.home method) ["this"] [.instance receiver]).trans (.of_same rfl)

/-! ## Inside activations -/

/-- A new activation has the standing of the place that it stands at. -/
theorem origin_activate (world : World) {outer : Place} (known : world.KnowsPlace outer)
    {names : List String} (plain : ∀ name ∈ names, Plain name) {values : List Value}
    (lengths : names.length = values.length) :
    (world.activate outer names values).2.origin
        ((world.activate outer names values).2.placeAt
          (some (world.activate outer names values).1)) =
      ⟨world.standing outer, none⟩ := by
  have noThis : "this" ∉ names := fun member => not_plain_this (plain _ member)
  have noSuper : "super" ∉ names := fun member => not_plain_super (plain _ member)
  have upholds := upholds_activate world outer names values
  simp only [placeAt, placeIn, getElem?_activate, names_zip lengths, origin, standing, heritage,
    noThis, noSuper, if_false, upholds.standing known]

/-- The methods of a subclass stand in an activation of `super`. -/
theorem origin_super (world : World) {place : Place} (known : world.KnowsPlace place)
    (superclass : Class) :
    (world.activate place ["super"] [.class superclass]).2.origin
        (⟨(world.activate place ["super"] [.class superclass]).1, ["super"]⟩ :: place) =
      ⟨world.standing place, some superclass⟩ := by
  have cell : (world.activate place ["super"] [.class superclass]).2.cell?
      (world.activate place ["super"] [.class superclass]).1 "super" =
        some (some (.class superclass)) := by
    simp only [World.cell?, getElem?_activate]
    rfl
  have upholds := upholds_activate world place ["super"] [.class superclass]
  simp [origin, standing, heritage, superclassIn, cell, upholds.standing known]

/-! ## Reading -/

/-- The standing has the instance that `this` reads. -/
theorem receiver_standing {place : Place} {ref : EnvironmentRef}
    (seen : seenIn "this" place = some ref) :
    (world.standing place).receiver = world.receiverIn ref := by
  induction place with
  | nil => cases seen
  | cons sight outer inductionHypothesis =>
      simp only [seenIn] at seen
      split at seen
      · next here =>
          obtain rfl := Option.some.inj seen
          simp [standing, here]
      · next elsewhere =>
          simp only [standing, elsewhere, if_false]
          exact inductionHypothesis seen

/-- The standing has the class that `super` reads, where the one is right around the
other. -/
theorem superclass_standing {place : Place} {ref : EnvironmentRef}
    (inherits : Inherits (viewFrom place)) (seen : seenIn "super" place = some ref) :
    (world.standing place).superclass = world.superclassIn ref := by
  induction place with
  | nil => cases seen
  | cons sight outer inductionHypothesis =>
      obtain ⟨noSuper, ⟨head, others, more, around⟩ | ⟨noThis, outside⟩⟩ := inherits
      · have here : "this" ∈ sight.names := List.mem_of_head? head
        cases outer with
        | nil => cases around
        | cons next rest =>
            have names : next.names = "super" :: others := (List.cons.inj around).1
            have present : "super" ∈ next.names := names ▸ List.mem_cons_self
            simp only [seenIn, noSuper, present, if_true, if_false] at seen
            obtain rfl := Option.some.inj seen
            simp [standing, heritage, here, present]
      · simp only [seenIn, noSuper, if_false] at seen
        simp only [standing, noThis, if_false]
        exact inductionHypothesis outside seen

/-- What `this` reads is the receiver of the place. -/
theorem receiver_of_read {place : Place} {span : Span} {object : Instance}
    {address : Address} (addressed : addressIn "this" (viewFrom place) = some address)
    (reads : world.readFrom place "this" span = .ok (.instance object)) :
    (world.standing place).receiver = some object := by
  obtain ⟨ref, seen⟩ := seenIn_of_addressed addressed
  rw [receiver_standing seen]
  simp only [readFrom, seen] at reads
  split at reads
  · next present =>
      obtain rfl := Except.ok.inj reads
      simp [receiverIn, present]
  · cases reads

/-- What `super` reads is the superclass of the place. -/
theorem superclass_of_read {place : Place} {span : Span} {superclass : Class}
    (inherits : Inherits (viewFrom place))
    (reads : world.readFrom place "super" span = .ok (.class superclass)) :
    (world.standing place).superclass = some superclass := by
  obtain ⟨depth, addressed, _⟩ := inherits.addresses
  obtain ⟨ref, seen⟩ := seenIn_of_addressed addressed
  rw [superclass_standing inherits seen]
  simp only [readFrom, seen] at reads
  split at reads
  · next present =>
      obtain rfl := Except.ok.inj reads
      simp [superclassIn, present]
  · cases reads

end World

end Lox.Lexical
