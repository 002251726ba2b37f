import Lox.Proofs.Lexical.Setting

/-!
Contract: what declarations and assignments do to a world.

A declaration first makes its name known, whose cell is then the only empty one, and
later fills this cell. An assignment replaces the value of a cell that has one. None
of them touches another activation.

Owns: `announce`, `define` and `assign` on sound worlds.
-/

set_option autoImplicit false

namespace Lox.Lexical

open Binding

namespace World

variable {outlet : Outlet} {world : World}

/-! ## One cell -/

section Cells

variable {activation : Activation} {name : String}

/-- A new name waits in the last cell. -/
theorem KnowsActivation.announce (known : world.KnowsActivation activation)
    (noneWaits : pendingIn activation.cells.entries = none)
    (absent : name ∉ activation.cells.names) (plain : Plain name) :
    world.KnowsActivation { activation with cells := activation.cells.insert name none } ∧
      pendingIn (activation.cells.insert name none).entries = some name ∧
      (activation.cells.insert name none).names = activation.cells.names ++ [name] := by
  obtain ⟨outer, distinct, filled, pending, laid, entries, _⟩ := known
  obtain rfl : pending = none := by rwa [laid, pendingIn_laidOut] at noneWaits
  rw [laid] at absent distinct
  have inserted := insert_laidOut_new absent
  have names : (laidOut filled (some name)).names = (laidOut filled none).names ++ [name] := by
    simp [names_laidOut]
  simp only [laid, inserted, pendingIn_laidOut, names, and_true]
  refine ⟨outer, ?_, filled, some name, rfl, entries, ?_⟩
  · have single : ∀ other ∈ (laidOut filled none).names, ∀ last ∈ [name], other ≠ last := by
      intro other member last here
      rw [List.mem_singleton.mp here]
      exact fun same => absent (same ▸ member)
    rw [names]
    exact List.nodup_append.mpr ⟨distinct, List.pairwise_singleton _ _, single⟩
  · intro waiting member
    obtain rfl : name = waiting := Option.some.inj member
    exact plain

/-- The name that waits gets its value. -/
theorem KnowsActivation.fill (known : world.KnowsActivation activation)
    (waits : pendingIn activation.cells.entries = some name) {value : Value}
    (knownEntry : world.KnowsEntry (name, value)) :
    world.KnowsActivation { activation with cells := activation.cells.insert name (some value) } ∧
      pendingIn (activation.cells.insert name (some value)).entries = none ∧
      (activation.cells.insert name (some value)).names = activation.cells.names := by
  obtain ⟨outer, distinct, filled, pending, laid, entries, _⟩ := known
  obtain rfl : pending = some name := by rwa [laid, pendingIn_laidOut] at waits
  rw [laid, names_laidOut] at distinct
  have absent : name ∉ filled.map Prod.fst := by
    intro member
    exact (List.nodup_append.mp distinct).2.2 name member name (by simp) rfl
  have inserted := insert_laidOut_pending absent value
  have names : (laidOut (filled ++ [(name, value)]) none).names =
      (laidOut filled (some name)).names := by
    simp [names_laidOut]
  simp only [laid, inserted, pendingIn_laidOut, names, and_true]
  refine ⟨outer, ?_, _, none, rfl, ?_, by simp⟩
  · rw [names, names_laidOut]
    exact distinct
  · intro entry member
    obtain before | here := List.mem_append.mp member
    · exact entries entry before
    · rw [List.mem_singleton.mp here]
      exact knownEntry

/-- A value that is there is replaced. -/
theorem KnowsActivation.replace (known : world.KnowsActivation activation) {old value : Value}
    (present : activation.cells.find? name = some (some old))
    (knownEntry : world.KnowsEntry (name, value)) :
    world.KnowsActivation { activation with cells := activation.cells.insert name (some value) } ∧
      pendingIn (activation.cells.insert name (some value)).entries =
        pendingIn activation.cells.entries ∧
      (activation.cells.insert name (some value)).names = activation.cells.names := by
  obtain ⟨outer, distinct, filled, pending, laid, entries, plain⟩ := known
  rw [laid] at present distinct
  obtain ⟨slot, found⟩ := getElem?_of_find?_laidOut present
  have inserted := insert_laidOut_filled distinct found value
  have sameNames : (filled.set slot (name, value)).map Prod.fst = filled.map Prod.fst := by
    have named : (filled.map Prod.fst)[slot]? = some name := by simp [found]
    obtain ⟨inRow, same⟩ := List.getElem?_eq_some_iff.mp named
    rw [List.map_set, ← same, List.set_getElem_self]
  have names : (laidOut (filled.set slot (name, value)) pending).names =
      (laidOut filled pending).names := by
    rw [names_laidOut, names_laidOut, sameNames]
  simp only [laid, inserted, pendingIn_laidOut, names, and_true]
  refine ⟨outer, ?_, _, pending, rfl, ?_, plain⟩
  · rw [names]
    exact distinct
  · intro entry member
    obtain before | here := List.mem_or_eq_of_mem_set member
    · exact entries entry before
    · rw [here]
      exact knownEntry

end Cells

theorem names_prefix_insert {α : Type} (table : Table α) (name : String) (value : α) :
    table.names <+: (table.insert name value).names := by
  obtain ⟨entries⟩ := table
  induction entries with
  | nil => exact List.nil_prefix
  | cons head tail inductionHypothesis =>
      by_cases same : head.1 = name
      · simp [Table.names, Table.insert, Table.insertIn, same]
      · simpa [Table.names, Table.insert, Table.insertIn, same] using inductionHypothesis

section SetCell

variable (world) (ref : EnvironmentRef) (name : String) (content : Option Value)

theorem getElem?_setCell_self {activation : Activation}
    (found : world.activations[ref]? = some activation) :
    (world.setCell ref name content).activations[ref]? =
      some { activation with cells := activation.cells.insert name content } := by
  simp [setCell, Array.getElem?_modify, found]

theorem getElem?_setCell_of_ne {other : EnvironmentRef} (different : ref ≠ other) :
    (world.setCell ref name content).activations[other]? = world.activations[other]? := by
  simp [setCell, Array.getElem?_modify, different]

theorem grows_setCell : Grows world (world.setCell ref name content) where
  homes _ _ found := found
  activations other activation found := by
    by_cases same : ref = other
    · subst same
      exact ⟨_, getElem?_setCell_self world ref name content found, rfl,
        names_prefix_insert activation.cells name content⟩
    · exact ⟨activation, (getElem?_setCell_of_ne world ref name content same).trans found, rfl,
        List.prefix_rfl⟩
  natives := Nat.le_refl _
  outlet := rfl

variable {world ref name content}

theorem Ready.setCell (ready : world.Ready outlet) {activation : Activation}
    (found : world.activations[ref]? = some activation)
    (known : world.KnowsActivation
      { activation with cells := activation.cells.insert name content }) :
    (world.setCell ref name content).Ready outlet where
  sound :=
    { activations := by
        intro other changed there
        have grows := grows_setCell world ref name content
        by_cases same : ref = other
        · subst same
          rw [getElem?_setCell_self world ref name content found] at there
          obtain rfl := Option.some.inj there
          exact known.mono grows
        · rw [getElem?_setCell_of_ne world ref name content same] at there
          exact (ready.sound.activations other changed there).mono grows
      globals := fun entry member =>
        (ready.sound.globals entry member).mono (grows_setCell world ref name content)
      fields := fun object table there entry member =>
        (ready.sound.fields object table there entry member).mono
          (grows_setCell world ref name content)
      natives := fun number operation there =>
        (ready.sound.natives number operation there).mono fun _ known =>
          known.mono (grows_setCell world ref name content)
      outlet := ready.sound.outlet }
  inScope := fun other inside =>
    (grows_setCell world ref name content).lt_size (ready.inScope other inside)

theorem settingAt_setCell_of_ne {other : EnvironmentRef} (different : ref ≠ other) :
    (world.setCell ref name content).settingAt (some other) = world.settingAt (some other) :=
  settingAt_eq_of_getElem? (getElem?_setCell_of_ne world ref name content different)

end SetCell

/-! ## Declarations -/

/-- Making a name known first changes nothing for its definition. -/
theorem define_announce (world : World) (name : String) (value : Value) :
    (world.announce name).define name value = world.define name value := by
  obtain top | ⟨ref, inside⟩ : world.scope = none ∨ ∃ ref, world.scope = some ref := by
    cases world.scope <;> simp
  · simp [announce, define, top]
  · have twice (activations : Array Activation) :
        (activations.modify ref fun activation =>
            { activation with cells := activation.cells.insert name none }).modify ref
          (fun activation =>
            { activation with cells := activation.cells.insert name (some value) }) =
        activations.modify ref fun activation =>
          { activation with cells := activation.cells.insert name (some value) } := by
      apply Array.ext_getElem?
      intro index
      by_cases same : ref = index
      · cases found : activations[index]? <;>
          simp [Array.getElem?_modify, same, found, Table.insert_insert]
      · simp [Array.getElem?_modify, same]
    simp [announce, define, inside, setCell, twice]

theorem becomes_announce (ready : world.Ready outlet) {name : String} (plain : Plain name)
    (noneWaits : world.setting.pending = none) (fresh : Undeclared name world.setting.context) :
    Becomes outlet world (world.announce name)
      ⟨world.scope, world.scope.map fun _ => name, declareIn name world.setting.context⟩ := by
  obtain top | ⟨ref, inside⟩ : world.scope = none ∨ ∃ ref, world.scope = some ref := by
    cases world.scope <;> simp
  · have same : world.announce name = world := by simp [announce, top]
    have setting : world.setting = ⟨none, none, []⟩ := by
      simp [World.setting, settingAt, pendingAt, placeAt, viewFrom, top]
    rw [same, setting, top]
    refine ⟨ready, .refl world, fun _ _ _ => rfl, setting⟩
  · have present := ready.inScope ref inside
    obtain ⟨activation, found⟩ : ∃ activation, world.activations[ref]? = some activation :=
      ⟨_, Array.getElem?_eq_getElem present⟩
    have setting : world.setting = ⟨some ref, pendingIn activation.cells.entries,
        activation.cells.names :: viewFrom activation.outer⟩ := by
      rw [World.setting, inside, settingAt_of_getElem? found]
    rw [setting] at noneWaits fresh
    have absent : name ∉ activation.cells.names := fresh _ rfl
    have same : world.announce name = world.setCell ref name none := by simp [announce, inside]
    obtain ⟨known, waits, names⟩ :=
      (ready.sound.activations ref activation found).announce noneWaits absent plain
    rw [same, setting, inside]
    refine ⟨ready.setCell found known, grows_setCell world ref name none, ?_, ?_⟩
    · intro other _ different
      exact settingAt_setCell_of_ne fun same => different (inside.trans (congrArg some same))
    · have scope : (world.setCell ref name none).scope = some ref := inside
      rw [World.setting, scope, settingAt_of_getElem? (getElem?_setCell_self world ref name none found),
        waits, names]
      rfl

theorem becomes_define (ready : world.Ready outlet) {name : String}
    (waits : world.setting.pending = world.scope.map fun _ => name) {value : Value}
    (plain : Plain name) (known : world.Knows value) :
    Becomes outlet world (world.define name value) { world.setting with pending := none } := by
  obtain top | ⟨ref, inside⟩ : world.scope = none ∨ ∃ ref, world.scope = some ref := by
    cases world.scope <;> simp
  · have same : world.define name value =
        { world with globals := world.globals.insert name value } := by
      simp [define, top]
    have setting : { world.setting with pending := none } = world.setting := by
      simp [World.setting, settingAt, pendingAt, top]
    rw [same, setting]
    exact keeps_insertGlobal ready known
  · have present := ready.inScope ref inside
    obtain ⟨activation, found⟩ : ∃ activation, world.activations[ref]? = some activation :=
      ⟨_, Array.getElem?_eq_getElem present⟩
    have setting : world.setting = ⟨some ref, pendingIn activation.cells.entries,
        activation.cells.names :: viewFrom activation.outer⟩ := by
      rw [World.setting, inside, settingAt_of_getElem? found]
    rw [setting, inside] at waits
    have same : world.define name value = world.setCell ref name (some value) := by
      simp [define, inside]
    obtain ⟨knownFilled, noneWaits, names⟩ :=
      (ready.sound.activations ref activation found).fill waits (known.entry plain)
    rw [same, setting]
    refine ⟨ready.setCell found knownFilled, grows_setCell world ref name (some value), ?_, ?_⟩
    · intro other _ different
      exact settingAt_setCell_of_ne fun same => different (inside.trans (congrArg some same))
    · have scope : (world.setCell ref name (some value)).scope = some ref := inside
      rw [World.setting, scope,
        settingAt_of_getElem? (getElem?_setCell_self world ref name (some value) found), noneWaits,
        names]

/-! ## Assignments -/

/-- A cell that has a value gets another one. -/
theorem keeps_setCell (ready : world.Ready outlet) {ref : EnvironmentRef} {name : String}
    {old value : Value} (present : world.cell? ref name = some (some old)) (plain : Plain name)
    (known : world.Knows value) : Keeps outlet world (world.setCell ref name (some value)) := by
  obtain ⟨activation, found, cell⟩ := Option.bind_eq_some_iff.mp present
  obtain ⟨knownReplaced, stillWaits, names⟩ :=
    (ready.sound.activations ref activation found).replace cell (known.entry plain)
  have here : (world.setCell ref name (some value)).settingAt (some ref) =
      world.settingAt (some ref) := by
    rw [settingAt_of_getElem? (getElem?_setCell_self world ref name (some value) found),
      settingAt_of_getElem? found, stillWaits, names]
  have everywhere (other : EnvironmentRef) :
      (world.setCell ref name (some value)).settingAt (some other) =
        world.settingAt (some other) := by
    by_cases same : ref = other
    · rw [← same, here]
    · exact settingAt_setCell_of_ne same
  refine ⟨ready.setCell found knownReplaced, grows_setCell world ref name (some value),
    fun other _ _ => everywhere other, ?_⟩
  change (world.setCell ref name (some value)).settingAt world.scope = world.settingAt world.scope
  cases world.scope with
  | none => rfl
  | some other => exact everywhere other

end World

end Lox.Lexical
