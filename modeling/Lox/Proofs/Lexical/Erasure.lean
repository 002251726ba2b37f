import Lox.Proofs.Lexical.Machine
import Lox.Proofs.Lexical.Variables

/-!
Contract: variables by name against variables by slot.

Erasing the names of a world leaves the world of the interpreter with slots: what an
activation holds becomes an environment, and what a place sees becomes the number of
its innermost activation. Reading and assigning a name before the names are erased is
reading and assigning its address behind; a cell that is empty is a slot that is not
there yet.

Owns: erasure, and that reading, assigning, declaring and making commute with it.
Does not own: steps of a run.
-/

set_option autoImplicit false

namespace Lox.Lexical

open Binding

/-- The values of the activation, in slots. -/
def Activation.erase (activation : Activation) : Environment Value :=
  ⟨innermost activation.outer, (valuesIn activation.cells).toArray⟩

/-- The world without names. -/
def World.erase (world : World) : Lox.World where
  globals := world.globals
  forest := ⟨world.activations.map Activation.erase⟩
  fields := world.fields
  natives := world.natives
  nextIdentity := world.homes.size
  scope := world.scope
  callDepth := world.callDepth
  callLimit := world.callLimit
  moment := world.moment
  outlet := world.outlet
  written := world.written
  printed := world.printed

/-! ## Failures -/

/-- With this outlet, the mishap shows as the fault. An empty cell shows as a slot that is
not there, and output fails for a reason that the outlet gives behind what is written. -/
def Mishap.Shows (outlet : Outlet) : Mishap → Fault → Prop
  | .violation broken span, fault => fault = .ofViolation broken span
  | .stackOverflow span, fault => fault = ⟨.stackOverflow, span⟩
  | .output reason span, fault =>
      (∃ written, (outlet.behind written).writeFailure = some reason ∨
        (outlet.behind written).flushFailure = some reason) ∧
        fault = .ofBreach (.output reason) span
  | .emptyCell _ span, fault => ∃ depth slot, fault = .ofBreach (.missingLocal depth slot) span

/-- The same value, or a mishap and the fault as which it shows. -/
def Agree (outlet : Outlet) : Except Mishap Value → Except Fault Value → Prop
  | .ok expected, .ok found => expected = found
  | .error mishap, .error fault => mishap.Shows outlet fault
  | _, _ => False

namespace World

variable {outlet : Outlet} {world : World}

theorem getElem?_erase (world : World) (ref : EnvironmentRef) :
    world.erase.forest.environments[ref]? = (world.activations[ref]?).map Activation.erase :=
  Array.getElem?_map

/-! ## Addresses -/

/-- The name has this number in the activation. -/
def Numbers (world : World) (ref : EnvironmentRef) (name : String) (slot : Nat) : Prop :=
  ∃ activation, world.activations[ref]? = some activation ∧
    activation.cells.names[slot]? = some name

/-- A cell holds what the slot with the number of its name holds. -/
theorem cell?_eq_slot? (sound : world.Sound outlet) {ref : EnvironmentRef} {name : String}
    {slot : Nat}
    (numbers : world.Numbers ref name slot) :
    world.cell? ref name = some (world.erase.forest.slot? ref slot) := by
  obtain ⟨activation, found, named⟩ := numbers
  obtain ⟨_, distinct, filled, pending, laid, _, _⟩ := sound.activations ref activation found
  rw [laid] at distinct named
  have content := find?_laidOut distinct named
  simp [cell?, Forest.slot?, getElem?_erase, found, Activation.erase, laid, valuesIn_laidOut,
    content]

/-- A name that has an address is in sight, and its activation is found as many steps
outwards as the address says. -/
theorem seenIn_of_addressIn {name : String} {place : Place}
    (known : world.KnowsPlace place) {address : Address}
    (addressed : addressIn name (viewFrom place) = some address) {start : EnvironmentRef}
    (starts : innermost place = some start) :
    ∃ ref, seenIn name place = some ref ∧
      world.erase.forest.ancestor? start address.depth = some ref ∧
      world.Numbers ref name address.slot := by
  induction place generalizing address start with
  | nil => cases starts
  | cons sight outer inductionHypothesis =>
      obtain ⟨⟨activation, found, sameOuter, seen⟩, rest⟩ := known
      obtain rfl : sight.activation = start := by simpa [innermost] using starts
      cases position : sight.names.idxOf? name with
      | some slot =>
          have addressedHere := addressIn_of_idxOf? (viewFrom outer) position
          obtain rfl : ⟨0, slot⟩ = address := Option.some.inj (addressedHere.symm.trans addressed)
          obtain ⟨inRange, here, _⟩ := List.idxOf?_eq_some_iff.mp position
          have inSight : sight.names[slot]? = some name :=
            here ▸ List.getElem?_eq_getElem inRange
          have member : name ∈ sight.names := List.mem_of_getElem? inSight
          have named : activation.cells.names[slot]? = some name :=
            List.prefix_iff_getElem?.mp seen slot inRange ▸ here ▸ rfl
          exact ⟨sight.activation, by simp [seenIn, member], rfl, activation, found,
            named⟩
      | none =>
          have absent : name ∉ sight.names := List.idxOf?_eq_none_iff.mp position
          have addressedFurther :=
            (addressIn_of_absent (viewFrom outer) absent).symm.trans addressed
          obtain ⟨further, addressedOutside, rfl⟩ := Option.map_eq_some_iff.mp addressedFurther
          obtain ⟨next, startsOutside⟩ : ∃ next, innermost outer = some next := by
            cases outer with
            | nil => cases addressedOutside
            | cons first _ => exact ⟨first.activation, rfl⟩
          obtain ⟨ref, seenOutside, reached, numbers⟩ :=
            inductionHypothesis rest addressedOutside startsOutside
          have encloses : world.erase.forest.enclosing? sight.activation = some next := by
            simp [Forest.enclosing?, getElem?_erase, found, Activation.erase, sameOuter,
              startsOutside]
          refine ⟨ref, ?_, ?_, numbers⟩
          · simpa [seenIn, absent] using seenOutside
          · simpa [inward, Forest.ancestor?, encloses] using reached

/-- A name without an address is not in sight. -/
theorem seenIn_of_addressIn_eq_none {name : String} {place : Place}
    (global : addressIn name (viewFrom place) = none) : seenIn name place = none := by
  induction place with
  | nil => rfl
  | cons sight outer inductionHypothesis =>
      cases position : sight.names.idxOf? name with
      | some slot =>
          have addressed := addressIn_of_idxOf? (viewFrom outer) position
          cases addressed.symm.trans global
      | none =>
          have absent : name ∉ sight.names := List.idxOf?_eq_none_iff.mp position
          have further := (addressIn_of_absent (viewFrom outer) absent).symm.trans global
          have outside : addressIn name (viewFrom outer) = none := Option.map_eq_none_iff.mp further
          simpa [seenIn, absent] using inductionHypothesis outside

/-- From a present place, a name that has an address is the variable at the address. -/
theorem Ready.seenIn_place (ready : world.Ready outlet) {name : String} {address : Address}
    (addressed : addressIn name world.setting.context = some address) :
    ∃ ref start, seenIn name world.place = some ref ∧ world.scope = some start ∧
      world.erase.forest.ancestor? start address.depth = some ref ∧
      world.Numbers ref name address.slot := by
  cases inside : world.scope with
  | none =>
      have nowhere : world.setting.context = [] := by
        simp [setting, settingAt, placeAt, viewFrom, inside]
      rw [nowhere] at addressed
      cases addressed
  | some start =>
      have starts : innermost world.place = some start := ready.innermost_place.trans inside
      obtain ⟨ref, seen, reached, numbers⟩ :=
        seenIn_of_addressIn ready.knowsPlace addressed starts
      exact ⟨ref, start, seen, rfl, reached, numbers⟩

/-! ## Reading -/

/-- Reading a name is reading its address. -/
theorem agree_readLocal (ready : world.Ready outlet) {name : String} {address : Address}
    (addressed : addressIn name world.setting.context = some address) (span : Span) :
    Agree outlet (world.read name span) (world.erase.readLocal address span) := by
  obtain ⟨ref, start, seen, inside, reached, numbers⟩ := ready.seenIn_place addressed
  have cell := cell?_eq_slot? ready.sound numbers
  have sameScope : world.erase.scope = some start := inside
  simp only [read, readFrom, seen, cell, Lox.World.readLocal, sameScope, Option.bind_some,
    Forest.getAt?, reached]
  cases world.erase.forest.slot? ref address.slot with
  | some value => exact rfl
  | none => exact ⟨address.depth, address.slot, rfl⟩

/-- Reading a variable by its name is reading it by its address, or as a global where
it has none. -/
theorem agree_readVariable (ready : world.Ready outlet) {reference : Reference}
    (bound : reference.Bound world.setting.context) :
    Agree outlet (world.read reference.name.text reference.name.span)
      (world.erase.readVariable reference) := by
  unfold Lox.World.readVariable
  rw [bound]
  cases addressed : addressIn reference.name.text world.setting.context with
  | some address => exact agree_readLocal ready addressed reference.name.span
  | none =>
      have unseen := seenIn_of_addressIn_eq_none addressed
      have unseenHere : seenIn reference.name.text world.place = none := unseen
      have sameGlobals : world.erase.globals = world.globals := rfl
      simp only [read, readFrom, unseenHere, sameGlobals]
      cases world.globals.find? reference.name.text <;> exact rfl

/-- What a cell holds may stand under its name. -/
theorem knowsEntry_of_cell? (sound : world.Sound outlet) {ref : EnvironmentRef} {name : String}
    {value : Value} (present : world.cell? ref name = some (some value)) :
    world.KnowsEntry (name, value) := by
  obtain ⟨activation, found, cell⟩ := Option.bind_eq_some_iff.mp present
  obtain ⟨_, _, filled, pending, laid, entries, _⟩ := sound.activations ref activation found
  rw [laid] at cell
  obtain ⟨slot, there⟩ := getElem?_of_find?_laidOut cell
  exact entries _ (List.mem_of_getElem? there)

/-- What is read is known. -/
theorem knows_of_read (sound : world.Sound outlet) {name : String} {span : Span} {value : Value}
    (found : world.read name span = .ok value) : world.Knows value := by
  simp only [read, readFrom] at found
  split at found
  · next ref _ =>
      split at found
      · next content present =>
          obtain rfl := Except.ok.inj found
          exact (knowsEntry_of_cell? sound present).value
      · cases found
  · split at found
    · next content present =>
        obtain rfl := Except.ok.inj found
        exact sound.globals _ (Table.mem_of_find? present)
    · cases found

/-- The cell of a name that no declaration can introduce is never empty. -/
theorem cell?_filled (sound : world.Sound outlet) {ref : EnvironmentRef} {name : String}
    (special : ¬ Plain name) {content : Option Value}
    (present : world.cell? ref name = some content) :
    ∃ value, content = some value ∧ world.KnowsEntry (name, value) := by
  cases content with
  | some value => exact ⟨value, rfl, knowsEntry_of_cell? sound present⟩
  | none =>
      obtain ⟨activation, found, cell⟩ := Option.bind_eq_some_iff.mp present
      obtain ⟨_, _, filled, pending, laid, _, plain⟩ := sound.activations ref activation found
      have member := Table.mem_of_find? cell
      rw [laid] at member
      have waits : name ∈ pending := by simpa [laidOut] using member
      exact absurd (plain name waits) special

theorem not_plain_this : ¬ Plain "this" := fun plain => plain_ne_this plain rfl

theorem not_plain_super : ¬ Plain "super" := fun plain => plain_ne_super plain rfl

/-- A name that has an address and that no declaration can introduce has a value. -/
theorem read_special (ready : world.Ready outlet) {name : String} (special : ¬ Plain name)
    {address : Address} (addressed : addressIn name world.setting.context = some address)
    (span : Span) :
    ∃ value, world.read name span = .ok value ∧ world.KnowsEntry (name, value) ∧
      world.erase.readLocal address span = .ok value := by
  obtain ⟨ref, _, seen, _, _, numbers⟩ := ready.seenIn_place addressed
  have cell := cell?_eq_slot? ready.sound numbers
  obtain ⟨value, filled, known⟩ := cell?_filled ready.sound special cell
  have found : world.read name span = .ok value := by
    simp [read, readFrom, seen, cell, filled]
  have agree := agree_readLocal ready addressed span
  rw [found] at agree
  refine ⟨value, found, known, ?_⟩
  cases behind : world.erase.readLocal address span with
  | ok other =>
      rw [behind] at agree
      exact congrArg Except.ok (Eq.symm agree)
  | error fault =>
      rw [behind] at agree
      exact agree.elim

/-- In a method, `this` is an instance. -/
theorem read_this (ready : world.Ready outlet) {address : Address}
    (addressed : addressIn "this" world.setting.context = some address) (span : Span) :
    ∃ object, world.read "this" span = .ok (.instance object) ∧
      world.KnowsClass object.origin ∧
      world.erase.readLocal address span = .ok (.instance object) := by
  obtain ⟨value, found, known, behind⟩ := read_special ready not_plain_this addressed span
  obtain ⟨object, same⟩ := known.receiver rfl
  obtain rfl : value = .instance object := same
  exact ⟨object, found, known.value, behind⟩

/-- In a method of a subclass, `super` is a class. -/
theorem read_super (ready : world.Ready outlet) {address : Address}
    (addressed : addressIn "super" world.setting.context = some address) (span : Span) :
    ∃ superclass, world.read "super" span = .ok (.class superclass) ∧
      world.KnowsClass superclass ∧
      world.erase.readLocal address span = .ok (.class superclass) := by
  obtain ⟨value, found, known, behind⟩ := read_special ready not_plain_super addressed span
  obtain ⟨superclass, same⟩ := known.inherited rfl
  obtain rfl : value = .class superclass := same
  exact ⟨superclass, found, known.value, behind⟩

/-! ## Assigning and declaring -/

/-- What changes one activation changes its environment. -/
theorem map_erase_modify {ref : EnvironmentRef} {activation : Activation}
    (found : world.activations[ref]? = some activation) (change : Activation → Activation)
    (changed : Environment Value → Environment Value)
    (same : (change activation).erase = changed activation.erase) :
    (world.activations.modify ref change).map Activation.erase =
      (world.activations.map Activation.erase).modify ref changed := by
  apply Array.ext_getElem?
  intro index
  by_cases here : ref = index
  · subst here
    simp [Array.getElem?_modify, found, same]
  · simp [Array.getElem?_modify, here]

theorem erase_setCell (sound : world.Sound outlet) {ref : EnvironmentRef} {name : String} {slot : Nat}
    (numbers : world.Numbers ref name slot) {old : Value}
    (present : world.cell? ref name = some (some old)) (value : Value) :
    (world.setCell ref name (some value)).erase =
      { world.erase with forest := world.erase.forest.setSlot ref slot value } := by
  obtain ⟨activation, found, named⟩ := numbers
  obtain ⟨_, distinct, filled, pending, laid, _, _⟩ := sound.activations ref activation found
  have cell : activation.cells.find? name = some (some old) := by
    simpa [cell?, found] using present
  rw [laid] at distinct named cell
  have inSlot : (filled.map Prod.snd)[slot]? = some old := by
    rw [find?_laidOut distinct named] at cell
    exact Option.some.inj cell
  obtain ⟨inRange, _⟩ := List.getElem?_eq_some_iff.mp inSlot
  rw [List.length_map] at inRange
  have entry : filled[slot]? = some (name, old) := by
    have key : (filled.map Prod.fst)[slot]? = some name := by
      rw [names_laidOut, List.getElem?_append_left (by simpa using inRange)] at named
      exact named
    rw [List.getElem?_eq_getElem inRange]
    simp only [List.getElem?_map, List.getElem?_eq_getElem inRange, Option.map_some,
      Option.some.injEq] at inSlot key
    rw [← inSlot, ← key]
  have changed : ({ activation with cells := activation.cells.insert name (some value) } :
      Activation).erase =
      { activation.erase with slots := activation.erase.slots.setIfInBounds slot value } := by
    simp [Activation.erase, laid, insert_laidOut_filled distinct entry, valuesIn_laidOut]
  have forest := map_erase_modify found
    (fun activation => { activation with cells := activation.cells.insert name (some value) })
    (fun environment => { environment with slots := environment.slots.setIfInBounds slot value })
    changed
  simp only [setCell, World.erase, Forest.setSlot]
  rw [forest]

/-- Either a variable cannot be assigned, by its name or by its address, or assigning it
by its name is assigning it by its address. -/
theorem assign_spec (ready : world.Ready outlet) {target : Reference}
    (bound : target.Bound world.setting.context) (plain : Plain target.name.text) :
    (∃ mishap fault, world.assignmentMishap? target.name.text target.name.span = some mishap ∧
      world.erase.assignmentFault? target = some fault ∧ mishap.Shows outlet fault) ∨
    (world.assignmentMishap? target.name.text target.name.span = none ∧
      world.erase.assignmentFault? target = none ∧
      ∀ value, world.Knows value → Keeps outlet world (world.assign target.name.text value) ∧
        (world.assign target.name.text value).erase = world.erase.assign target value) := by
  cases addressed : addressIn target.name.text world.setting.context with
  | some address =>
      obtain ⟨ref, start, seen, inside, reached, numbers⟩ := ready.seenIn_place addressed
      have cell := cell?_eq_slot? ready.sound numbers
      have address? : target.address = some address := bound.trans addressed
      have sameScope : world.erase.scope = some start := inside
      -- A slot is missing exactly where the cell of the name is still empty.
      cases content : world.erase.forest.slot? ref address.slot with
      | none =>
          refine .inl ⟨.emptyCell target.name.text target.name.span,
            .ofBreach (.missingLocal address.depth address.slot) target.name.span, ?_, ?_,
            address.depth, address.slot, rfl⟩
          · simp [assignmentMishap?, read, readFrom, seen, cell, content]
          · simp [Lox.World.assignmentFault?, address?, Lox.World.localFault?, sameScope,
              Forest.reaches, Forest.getAt?, reached, content]
      | some old =>
          rw [content] at cell
          refine .inr ⟨?_, ?_, ?_⟩
          · simp [assignmentMishap?, read, readFrom, seen, cell]
          · simp [Lox.World.assignmentFault?, address?, Lox.World.localFault?, sameScope,
              Forest.reaches, Forest.getAt?, reached, content]
          · intro value known
            have assigned : world.assign target.name.text value =
                world.setCell ref target.name.text (some value) := by
              simp [assign, seen]
            rw [assigned, erase_setCell ready.sound numbers cell]
            refine ⟨keeps_setCell ready cell plain known, ?_⟩
            simp [Lox.World.assign, address?, Lox.World.assignLocal, sameScope, Forest.assignAt,
              reached]
  | none =>
      have unseen : seenIn target.name.text world.place = none :=
        seenIn_of_addressIn_eq_none addressed
      have address? : target.address = none := bound.trans addressed
      have sameGlobals : world.erase.globals = world.globals := rfl
      cases content : world.globals.find? target.name.text with
      | none =>
          refine .inl ⟨.violation (.undefinedVariable target.name.text) target.name.span,
            .ofViolation (.undefinedVariable target.name.text) target.name.span, ?_, ?_, rfl⟩
          · simp [assignmentMishap?, read, readFrom, unseen, content]
          · simp [Lox.World.assignmentFault?, address?, sameGlobals, Table.contains, content]
      | some old =>
          refine .inr ⟨?_, ?_, ?_⟩
          · simp [assignmentMishap?, read, readFrom, unseen, content]
          · simp [Lox.World.assignmentFault?, address?, sameGlobals, Table.contains, content]
          · intro value known
            have assigned : world.assign target.name.text value =
                { world with globals := world.globals.insert target.name.text value } := by
              simp [assign, unseen]
            rw [assigned]
            refine ⟨keeps_insertGlobal ready known, ?_⟩
            simp [Lox.World.assign, address?, World.erase]

/-- A name that waits has no slot yet. -/
theorem erase_announce (ready : world.Ready outlet) {name : String}
    (noneWaits : world.setting.pending = none) (fresh : Undeclared name world.setting.context) :
    (world.announce name).erase = world.erase := by
  obtain top | ⟨ref, inside⟩ : world.scope = none ∨ ∃ ref, world.scope = some ref := by
    cases world.scope <;> simp
  · simp [announce, top]
  · obtain ⟨activation, found⟩ : ∃ activation, world.activations[ref]? = some activation :=
      ⟨_, Array.getElem?_eq_getElem (ready.inScope ref inside)⟩
    obtain ⟨_, _, filled, pending, laid, _, _⟩ := ready.sound.activations ref activation found
    rw [setting, inside, settingAt_of_getElem? found, laid] at noneWaits fresh
    obtain rfl : pending = none := (pendingIn_laidOut filled pending).symm.trans noneWaits
    have inserted := insert_laidOut_new (fresh _ rfl)
    have changed : ({ activation with cells := activation.cells.insert name none } :
        Activation).erase = id activation.erase := by
      simp [Activation.erase, laid, inserted, valuesIn_laidOut]
    have forest := map_erase_modify found
      (fun activation => { activation with cells := activation.cells.insert name none }) id changed
    have modify_id (environments : Array (Environment Value)) :
        environments.modify ref id = environments := by
      apply Array.ext_getElem?
      intro index
      simp [Array.getElem?_modify]
    rw [modify_id] at forest
    simp only [announce, inside, setCell, World.erase]
    rw [forest]

/-- The value of the name that waits gets the next slot. -/
theorem erase_define (ready : world.Ready outlet) {name : String}
    (waits : world.setting.pending = world.scope.map fun _ => name) (value : Value) :
    (world.define name value).erase = world.erase.define name value := by
  obtain top | ⟨ref, inside⟩ : world.scope = none ∨ ∃ ref, world.scope = some ref := by
    cases world.scope <;> simp
  · simp [define, Lox.World.define, World.erase, top]
  · obtain ⟨activation, found⟩ : ∃ activation, world.activations[ref]? = some activation :=
      ⟨_, Array.getElem?_eq_getElem (ready.inScope ref inside)⟩
    obtain ⟨_, distinct, filled, pending, laid, _, _⟩ :=
      ready.sound.activations ref activation found
    rw [setting, inside, settingAt_of_getElem? found, laid] at waits
    obtain rfl : pending = some name := (pendingIn_laidOut filled pending).symm.trans waits
    rw [laid, names_laidOut] at distinct
    have absent : name ∉ filled.map Prod.fst := by
      intro member
      exact (List.nodup_append.mp distinct).2.2 name member name (by simp) rfl
    have changed : ({ activation with cells := activation.cells.insert name (some value) } :
        Activation).erase =
        { activation.erase with slots := activation.erase.slots.push value } := by
      simp [Activation.erase, laid, insert_laidOut_pending absent, valuesIn_laidOut]
    have forest := map_erase_modify found
      (fun activation => { activation with cells := activation.cells.insert name (some value) })
      (fun environment => { environment with slots := environment.slots.push value }) changed
    simp only [define, inside, setCell, World.erase, Lox.World.define, Forest.define]
    rw [forest]

/-! ## Making -/

theorem erase_activate (world : World) (outer : Place) (names : List String)
    (values : List Value) (lengths : names.length = values.length) :
    (world.activate outer names values).2.erase =
      (world.erase.allocate (innermost outer) values.toArray).2 := by
  have slots : valuesIn ⟨names.zip (values.map some)⟩ = values := by
    rw [zip_eq_laidOut, valuesIn_laidOut, List.map_snd_zip (Nat.le_of_eq lengths.symm)]
  simp [activate, World.erase, Lox.World.allocate, Forest.create, Activation.erase, slots]

theorem fst_activate (world : World) (outer : Place) (names : List String) (values : List Value)
    (enclosing : Option EnvironmentRef) (slots : Array Value) :
    (world.activate outer names values).1 = (world.erase.allocate enclosing slots).1 :=
  Array.size_map.symm

theorem erase_makeFunction (world : World) (declaration : FunctionDeclaration) (home : Place)
    (isInitializer : Bool) :
    (world.makeFunction declaration home isInitializer).2.erase =
      (world.erase.makeFunction declaration (innermost home) isInitializer).2 := by
  simp [makeFunction, World.erase, Lox.World.makeFunction]

theorem fst_makeFunction (world : World) (declaration : FunctionDeclaration) (home : Place)
    (isInitializer : Bool) :
    (world.makeFunction declaration home isInitializer).1 =
      (world.erase.makeFunction declaration (innermost home) isInitializer).1 := rfl

theorem erase_makeMethods (home : Place) (methods : List FunctionDeclaration) (world : World) :
    (makeMethods home methods world).1 =
        (Lox.World.makeMethods (innermost home) methods world.erase).1 ∧
      (makeMethods home methods world).2.erase =
        (Lox.World.makeMethods (innermost home) methods world.erase).2 := by
  induction methods generalizing world with
  | nil => exact ⟨rfl, rfl⟩
  | cons declaration rest inductionHypothesis =>
      have one := erase_makeFunction world declaration home declaration.isInitializer
      obtain ⟨made, reached⟩ := inductionHypothesis
        (world.makeFunction declaration home declaration.isInitializer).2
      rw [one] at made reached
      refine ⟨?_, reached⟩
      exact congrArg (List.cons _) made

theorem erase_makeClass (world : World) (name : String) (superclass : Option Class) (home : Place)
    (methods : List FunctionDeclaration) :
    (world.makeClass name superclass home methods).1 =
        (world.erase.makeClass name superclass (innermost home) methods).1 ∧
      (world.makeClass name superclass home methods).2.erase =
        (world.erase.makeClass name superclass (innermost home) methods).2 := by
  obtain ⟨made, reached⟩ := erase_makeMethods home methods world
  simp only [makeClass, Lox.World.makeClass, ← made, ← reached]
  simp [World.erase]

theorem erase_bindMethod (world : World) {method : Function}
    (closure : method.closure = innermost (world.home method)) (receiver : Instance) :
    (world.bindMethod method receiver).1 = (world.erase.bindMethod method receiver).1 ∧
      (world.bindMethod method receiver).2.erase = (world.erase.bindMethod method receiver).2 := by
  have inside := erase_activate world (world.home method) ["this"] [.instance receiver] rfl
  have number := fst_activate world (world.home method) ["this"] [.instance receiver]
    method.closure #[.instance receiver]
  rw [← closure] at inside
  simp only [bindMethod, Lox.World.bindMethod, fst_makeFunction, erase_makeFunction, inside, innermost,
    List.head?_cons, Option.map_some, number, and_self]

end World

end Lox.Lexical
