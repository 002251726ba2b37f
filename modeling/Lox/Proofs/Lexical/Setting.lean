import Lox.Proofs.Lexical.Known

/-!
Contract: the setting of a place that runs, and what operations do to it.

The setting is the activation that runs, the name that waits there for its value, and
the names in sight. While an activation runs, its own setting changes with every
declaration, and that of no other activation does.

Owns: settings, and that each operation of a world keeps it sound and leaves other
settings alone. Does not own: what the operations do to the interpreter with slots.
-/

set_option autoImplicit false

namespace Lox.Lexical

open Binding

/-- What a construct finds around it. -/
structure Setting where
  scope : Option EnvironmentRef
  /-- The name whose value is being evaluated in the innermost activation. -/
  pending : Option String
  context : Context

namespace World

/-- The name that waits for its value in an activation. -/
def pendingAt (world : World) (scope : Option EnvironmentRef) : Option String :=
  scope.bind fun ref =>
    (world.activations[ref]?).bind fun activation => pendingIn activation.cells.entries

/-- The setting of an activation, or of the top level. -/
def settingAt (world : World) (scope : Option EnvironmentRef) : Setting :=
  ⟨scope, world.pendingAt scope, viewFrom (world.placeAt scope)⟩

/-- The present setting. -/
def setting (world : World) : Setting := world.settingAt world.scope

/-- The world is sound, and its present activation exists. -/
structure Ready (world : World) (outlet : Outlet) : Prop where
  sound : world.Sound outlet
  inScope : ∀ ref ∈ world.scope, ref < world.activations.size

/-- From one world the other is reached, in the same activation; it is ready and has
this setting, and the settings of other activations are as before. -/
structure Becomes (outlet : Outlet) (before after : World) (setting : Setting) : Prop where
  ready : after.Ready outlet
  grows : Grows before after
  elsewhere : ∀ ref < before.activations.size, before.scope ≠ some ref →
    after.settingAt (some ref) = before.settingAt (some ref)
  setting : after.setting = setting

/-- The other world is reached, and no setting has changed. -/
abbrev Keeps (outlet : Outlet) (before after : World) : Prop :=
  Becomes outlet before after before.setting

variable {outlet : Outlet} {world before after : World}

theorem Becomes.scope {setting : Setting} (becomes : Becomes outlet before after setting) :
    after.scope = setting.scope :=
  congrArg Setting.scope becomes.setting

theorem Becomes.trans {first second third : World} {middle final : Setting}
    (one : Becomes outlet first second middle) (same : middle.scope = first.scope)
    (two : Becomes outlet second third final) : Becomes outlet first third final where
  ready := two.ready
  grows := one.grows.trans two.grows
  elsewhere ref present different := by
    have stillDifferent : second.scope ≠ some ref := by
      rw [one.scope, same]
      exact different
    rw [two.elsewhere ref (one.grows.lt_size present) stillDifferent]
    exact one.elsewhere ref present different
  setting := two.setting

theorem Keeps.trans {first second third : World} (one : Keeps outlet first second)
    (two : Keeps outlet second third) : Keeps outlet first third := by
  have both := Becomes.trans one rfl two
  rwa [one.setting] at both

/-- The setting of an activation depends on the activation alone. -/
theorem settingAt_eq_of_getElem? {ref : EnvironmentRef}
    (same : after.activations[ref]? = before.activations[ref]?) :
    after.settingAt (some ref) = before.settingAt (some ref) := by
  simp [settingAt, pendingAt, placeAt, placeIn, same]

theorem settingAt_of_getElem? {ref : EnvironmentRef} {activation : Activation}
    (found : world.activations[ref]? = some activation) :
    world.settingAt (some ref) =
      ⟨some ref, pendingIn activation.cells.entries,
        activation.cells.names :: viewFrom activation.outer⟩ := by
  simp [settingAt, pendingAt, placeAt, placeIn, found, viewFrom]

/-! ## The present place -/

/-- The present place is known, and the present activation is its innermost one. -/
theorem Ready.knowsPlace (ready : world.Ready outlet) : world.KnowsPlace world.place := by
  unfold place placeAt
  split
  · trivial
  · next ref inside =>
      have present := ready.inScope ref inside
      have found : world.activations[ref]? = some world.activations[ref] :=
        Array.getElem?_eq_getElem present
      simp only [placeIn, found]
      exact ⟨⟨_, found, rfl, List.prefix_rfl⟩, (ready.sound.activations ref _ found).outer⟩

theorem Ready.innermost_place (ready : world.Ready outlet) : innermost world.place = world.scope := by
  unfold place placeAt
  split
  · next top => exact top.symm
  · next ref inside =>
      have present := ready.inScope ref inside
      rw [inside]
      simp [placeIn, Array.getElem?_eq_getElem present, innermost]

/-! ## Changes that concern no activation -/

theorem Sound.of_grows (sound : before.Sound outlet) (grows : Grows before after)
    (activations : after.activations = before.activations)
    (globals : ∀ entry ∈ after.globals.entries, before.Knows entry.2)
    (fields : ∀ (object : Identity) (table : Table Value), after.fields[object]? = some table →
      ∀ entry ∈ table.entries, before.Knows entry.2)
    (natives : after.natives = before.natives) : after.Sound outlet where
  activations ref activation found := by
    rw [activations] at found
    exact (sound.activations ref activation found).mono grows
  globals entry member := (globals entry member).mono grows
  fields object table found entry member := (fields object table found entry member).mono grows
  natives number operation found :=
    (sound.natives number operation (natives ▸ found)).mono fun _ known => known.mono grows
  outlet := grows.outlet.trans sound.outlet

theorem Ready.keeps (ready : before.Ready outlet) (grows : Grows before after)
    (activations : after.activations = before.activations)
    (globals : ∀ entry ∈ after.globals.entries, before.Knows entry.2)
    (fields : ∀ (object : Identity) (table : Table Value), after.fields[object]? = some table →
      ∀ entry ∈ table.entries, before.Knows entry.2)
    (natives : after.natives = before.natives) (scope : after.scope = before.scope) :
    Keeps outlet before after where
  ready :=
    { sound := ready.sound.of_grows grows activations globals fields natives
      inScope := by
        rw [scope, activations]
        exact ready.inScope }
  grows := grows
  elsewhere ref _ _ := settingAt_eq_of_getElem? (by rw [activations])
  setting := by
    unfold setting
    rw [scope]
    cases before.scope with
    | none => rfl
    | some ref => exact settingAt_eq_of_getElem? (by rw [activations])

/-- A deeper call, or the way back from it. -/
theorem keeps_callDepth (ready : world.Ready outlet) (depth : Nat) :
    Keeps outlet world { world with callDepth := depth } :=
  ready.keeps (.of_same rfl rfl rfl rfl) rfl ready.sound.globals ready.sound.fields rfl rfl

theorem keeps_tick (ready : world.Ready outlet) : Keeps outlet world world.tick :=
  ready.keeps (.of_same rfl rfl rfl rfl) rfl ready.sound.globals ready.sound.fields rfl rfl

theorem keeps_print (ready : world.Ready outlet) (line : String) :
    Keeps outlet world (world.print line) :=
  ready.keeps (.of_same rfl rfl rfl rfl) rfl ready.sound.globals ready.sound.fields rfl rfl

/-- A global gets a value. -/
theorem keeps_insertGlobal (ready : world.Ready outlet) {name : String} {value : Value}
    (known : world.Knows value) :
    Keeps outlet world { world with globals := world.globals.insert name value } := by
  refine ready.keeps (.of_same rfl rfl rfl rfl) rfl ?_ ready.sound.fields rfl rfl
  intro entry member
  obtain rfl | before := Table.mem_insert member
  · exact known
  · exact ready.sound.globals entry before

theorem keeps_setField (ready : world.Ready outlet) (object : Instance) (name : String)
    {value : Value} (known : world.Knows value) : Keeps outlet world (world.setField object name value) := by
  refine ready.keeps (.of_same rfl rfl rfl rfl) rfl ready.sound.globals ?_ rfl rfl
  intro identity table found entry member
  simp only [setField, Array.getElem?_modify] at found
  split at found
  · cases old : world.fields[identity]? with
    | none => simp [old] at found
    | some fields =>
        obtain rfl : fields.insert name value = table := by simpa [old] using found
        obtain rfl | before := Table.mem_insert member
        · exact known
        · exact ready.sound.fields identity fields old entry before
  · exact ready.sound.fields identity table found entry member

theorem keeps_makeInstance (ready : world.Ready outlet) (origin : Class) :
    Keeps outlet world (world.makeInstance origin).2 := by
  refine ready.keeps (.of_same rfl rfl rfl rfl) rfl ready.sound.globals ?_ rfl rfl
  intro identity table found entry member
  simp only [makeInstance, Array.getElem?_push] at found
  split at found
  · obtain rfl : Table.empty = table := by simpa using found
    cases member
  · exact ready.sound.fields identity table found entry member

/-! ## Functions and classes -/

theorem grows_pushHome (world : World) (home : Place) :
    Grows world { world with homes := world.homes.push home } where
  homes identity place found := by
    have made := (Array.getElem?_eq_some_iff.mp found).1
    rw [Array.getElem?_push_lt made, ← found, Array.getElem?_eq_getElem made]
  activations _ activation found := ⟨activation, found, rfl, List.prefix_rfl⟩
  natives := Nat.le_refl _
  outlet := rfl

theorem keeps_pushHome (ready : world.Ready outlet) (home : Place) :
    Keeps outlet world { world with homes := world.homes.push home } :=
  ready.keeps (grows_pushHome world home) rfl ready.sound.globals ready.sound.fields rfl rfl

section Makes

variable (world) (declaration : FunctionDeclaration) (home : Place) (isInitializer : Bool)

theorem home_makeFunction :
    (world.makeFunction declaration home isInitializer).2.home
      (world.makeFunction declaration home isInitializer).1 = home := by
  simp [makeFunction, World.home]

theorem made_makeFunction :
    (world.makeFunction declaration home isInitializer).1.identity <
      (world.makeFunction declaration home isInitializer).2.homes.size := by
  simp [makeFunction]

end Makes

/-- A function made where its tree is bound is known. -/
theorem knows_makeFunction {home : Place} (knownHome : world.KnowsPlace home)
    {declaration : FunctionDeclaration} (bound : boundFunction (viewFrom home) declaration)
    (isInitializer : Bool)
    (receiver : isInitializer = true → ∃ ref outer, home = ⟨ref, ["this"]⟩ :: outer) :
    (world.makeFunction declaration home isInitializer).2.KnowsFunction
      (world.makeFunction declaration home isInitializer).1 := by
  have sameHome := home_makeFunction world declaration home isInitializer
  have grows := grows_pushHome world home
  exact
    { made := made_makeFunction world declaration home isInitializer
      home := by
        rw [sameHome]
        exact knownHome.mono grows
      closure := by
        rw [sameHome]
        rfl
      bound := by
        rw [sameHome]
        exact bound
      receiver := by
        rw [sameHome]
        exact receiver }

/-- The methods of a class, made where their trees are bound, are known. -/
theorem makeMethods_spec {home : Place} {methods : List FunctionDeclaration}
    (ready : world.Ready outlet) (knownHome : world.KnowsPlace home)
    (bound : boundFunctions (["this"] :: viewFrom home) methods) :
    Keeps outlet world (makeMethods home methods world).2 ∧
      ∀ entry ∈ (makeMethods home methods world).1,
        (makeMethods home methods world).2.KnowsMethod entry.2 := by
  induction methods generalizing world with
  | nil => exact ⟨ready.keeps (.refl world) rfl ready.sound.globals ready.sound.fields rfl rfl, by
      simp [makeMethods]⟩
  | cons declaration rest inductionHypothesis =>
      have keepsFirst := keeps_pushHome ready home
      have sameHome := home_makeFunction world declaration home declaration.isInitializer
      have knownMethod : (world.makeFunction declaration home declaration.isInitializer).2.KnowsMethod
          (world.makeFunction declaration home declaration.isInitializer).1 :=
        { made := made_makeFunction world declaration home declaration.isInitializer
          home := by
            rw [sameHome]
            exact knownHome.mono keepsFirst.grows
          closure := by
            rw [sameHome]
            rfl
          bound := by
            rw [sameHome]
            exact bound.1 }
      obtain ⟨keepsRest, knownRest⟩ :=
        inductionHypothesis keepsFirst.ready (knownHome.mono keepsFirst.grows) bound.2
      refine ⟨Keeps.trans keepsFirst keepsRest, ?_⟩
      intro entry member
      obtain rfl | later := List.mem_cons.mp member
      · exact knownMethod.mono keepsRest.grows
      · exact knownRest entry later

/-- A class made where its methods are bound is known. -/
theorem makeClass_spec {home : Place} {methods : List FunctionDeclaration}
    (ready : world.Ready outlet) (knownHome : world.KnowsPlace home)
    (bound : boundFunctions (["this"] :: viewFrom home) methods) (name : String)
    {superclass : Option Class} (inherited : ∀ cls ∈ superclass, world.KnowsClass cls) :
    Keeps outlet world (world.makeClass name superclass home methods).2 ∧
      (world.makeClass name superclass home methods).2.KnowsClass
        (world.makeClass name superclass home methods).1 := by
  obtain ⟨keepsMethods, known⟩ := makeMethods_spec ready knownHome bound
  have keepsClass := keeps_pushHome keepsMethods.ready []
  have keeps := Keeps.trans keepsMethods keepsClass
  refine ⟨keeps, ?_⟩
  have knownMethods : ∀ entry ∈ (Table.ofList (makeMethods home methods world).1).entries,
      (world.makeClass name superclass home methods).2.KnowsMethod entry.2 := by
    intro entry member
    exact (known entry (Table.mem_ofList member)).mono keepsClass.grows
  cases superclass with
  | none => exact .base knownMethods
  | some cls => exact .derived ((inherited cls rfl).mono keeps.grows) knownMethods

/-! ## Activations -/

theorem getElem?_activate (world : World) (outer : Place) (names : List String)
    (values : List Value) :
    (world.activate outer names values).2.activations[(world.activate outer names values).1]? =
      some ⟨⟨names.zip (values.map some)⟩, outer⟩ :=
  Array.getElem?_push_size

theorem grows_activate (world : World) (outer : Place) (names : List String)
    (values : List Value) : Grows world (world.activate outer names values).2 where
  homes _ _ found := found
  activations ref activation found := by
    have present := (Array.getElem?_eq_some_iff.mp found).1
    refine ⟨activation, ?_, rfl, List.prefix_rfl⟩
    rw [← found]
    exact Array.getElem?_push_lt present ▸ (Array.getElem?_eq_getElem present).symm
  natives := Nat.le_refl _
  outlet := rfl

section Activate

variable {outer : Place} {names : List String} {values : List Value}

theorem zip_eq_laidOut :
    (⟨names.zip (values.map some)⟩ : Table (Option Value)) = laidOut (names.zip values) none := by
  simp [laidOut, List.zip_map_right, Prod.map]

theorem names_zip (lengths : names.length = values.length) :
    (⟨names.zip (values.map some)⟩ : Table (Option Value)).names = names := by
  simp [Table.names, List.map_fst_zip, lengths]

theorem keeps_activate (ready : world.Ready outlet) (knownOuter : world.KnowsPlace outer)
    (lengths : names.length = values.length) (distinct : names.Nodup)
    (known : ∀ entry ∈ names.zip values, world.KnowsEntry entry) :
    Keeps outlet world (world.activate outer names values).2 where
  ready :=
    { sound :=
        { activations := by
            intro ref activation found
            have grows := grows_activate world outer names values
            simp only [activate, Array.getElem?_push] at found
            split at found
            · obtain rfl := Option.some.inj found
              exact
                { outer := knownOuter.mono grows
                  distinct := (names_zip lengths).symm ▸ distinct
                  cells := ⟨names.zip values, none, zip_eq_laidOut,
                    fun entry member => (known entry member).mono grows, by simp⟩ }
            · exact (ready.sound.activations ref activation found).mono grows
          globals := fun entry member =>
            (ready.sound.globals entry member).mono (grows_activate world outer names values)
          fields := fun object table found entry member =>
            (ready.sound.fields object table found entry member).mono
              (grows_activate world outer names values)
          natives := fun number operation found =>
            (ready.sound.natives number operation found).mono fun _ known =>
              known.mono (grows_activate world outer names values)
          outlet := ready.sound.outlet }
      inScope := fun ref inside =>
        (grows_activate world outer names values).lt_size (ready.inScope ref inside) }
  grows := grows_activate world outer names values
  elsewhere ref present _ := settingAt_eq_of_getElem? (Array.getElem?_push_lt present ▸
    (Array.getElem?_eq_getElem present).symm)
  setting := by
    change World.settingAt _ world.scope = world.settingAt world.scope
    cases inside : world.scope with
    | none => rfl
    | some ref =>
        have present := ready.inScope ref inside
        exact settingAt_eq_of_getElem? (Array.getElem?_push_lt present ▸
          (Array.getElem?_eq_getElem present).symm)

/-- The setting of a new activation: nothing waits there. -/
theorem settingAt_activate (world : World) (outer : Place)
    (lengths : names.length = values.length) :
    (world.activate outer names values).2.settingAt
        (some (world.activate outer names values).1) =
      ⟨some (world.activate outer names values).1, none, names :: viewFrom outer⟩ := by
  rw [settingAt_of_getElem? (getElem?_activate world outer names values), names_zip lengths,
    zip_eq_laidOut, pendingIn_laidOut]

variable (names values)

theorem knowsPlace_activate (knownOuter : world.KnowsPlace outer)
    (lengths : names.length = values.length) :
    (world.activate outer names values).2.KnowsPlace
      (⟨(world.activate outer names values).1, names⟩ :: outer) := by
  refine ⟨⟨_, getElem?_activate world outer names values, rfl, ?_⟩,
    knownOuter.mono (grows_activate world outer names values)⟩
  simp only [names_zip lengths, List.prefix_rfl]

end Activate

theorem Ready.goTo (ready : world.Ready outlet) {scope : Option EnvironmentRef}
    (inScope : ∀ ref ∈ scope, ref < world.activations.size) : (world.goTo scope).Ready outlet where
  sound := ready.sound.of_grows (.of_same rfl rfl rfl rfl) rfl ready.sound.globals
    ready.sound.fields rfl
  inScope := inScope

/-- A method that is bound to an instance is a function inside an activation of
`this`. -/
theorem bindMethod_spec (ready : world.Ready outlet) {method : Function}
    (known : world.KnowsMethod method) {receiver : Instance}
    (knownReceiver : world.KnowsClass receiver.origin) :
    Keeps outlet world (world.bindMethod method receiver).2 ∧
      (world.bindMethod method receiver).2.KnowsFunction (world.bindMethod method receiver).1 := by
  have knownEntry : ∀ entry ∈ ["this"].zip [Value.instance receiver], world.KnowsEntry entry := by
    intro entry member
    obtain rfl : entry = ("this", .instance receiver) := by simpa using member
    have notSuper : "this" = "super" → ∃ superclass, Value.instance receiver = .class superclass :=
      fun same => absurd same (by decide)
    exact ⟨knownReceiver, fun _ => ⟨receiver, rfl⟩, notSuper⟩
  have keepsThis := keeps_activate ready known.home rfl (List.pairwise_singleton _ _) knownEntry
  have knownPlace := knowsPlace_activate ["this"] [.instance receiver] known.home rfl
  have keepsBound := keeps_pushHome keepsThis.ready
    (⟨(world.activate (world.home method) ["this"] [.instance receiver]).1, ["this"]⟩ ::
      world.home method)
  exact ⟨Keeps.trans keepsThis keepsBound,
    knows_makeFunction knownPlace known.bound method.isInitializer fun _ => ⟨_, _, rfl⟩⟩

end World

end Lox.Lexical
