import Lox.Proofs.Lexical.Cells
import Lox.Proofs.Requests

/-!
Contract: the functions that a world contains.

Functions come into a world where a tree declares them, and from there they get into
variables, fields, classes and other functions' arguments. What is demanded of every
function at its making therefore holds of every function that is found later: a value
`Meets` a demand if all functions that it is made of do, and a world if all its values
do. Natives must be honest, since what they answer is a value too.

Owns: demands, and that each operation of a world keeps them. Does not own: which
demands the functions of a program meet.
-/

set_option autoImplicit false

namespace Lox

/-- What is demanded of functions: of their declarations, and of whether they are
initializers. -/
abbrev Demand := FunctionDeclaration → Bool → Prop

/-- The function meets the demand. -/
def Function.Meets (demand : Demand) (function : Function) : Prop :=
  demand function.declaration function.isInitializer

/-- A method under a name of its class: it meets the demand, is called so, and is an
initializer if its declaration is one. -/
structure MethodMeets (demand : Demand) (entry : String × Function) : Prop where
  meets : entry.2.Meets demand
  name : entry.1 = entry.2.declaration.name.text
  initializer : entry.2.isInitializer = entry.2.declaration.isInitializer

/-- The methods of the class and of its superclasses meet the demand. -/
inductive Class.Meets (demand : Demand) : Class → Prop
  | base {identity : Identity} {name : String} {methods : Table Function}
      (own : ∀ entry ∈ methods.entries, MethodMeets demand entry) :
      Class.Meets demand (.mk identity name none methods)
  | derived {identity : Identity} {name : String} {superclass : Class} {methods : Table Function}
      (inherited : Class.Meets demand superclass)
      (own : ∀ entry ∈ methods.entries, MethodMeets demand entry) :
      Class.Meets demand (.mk identity name (some superclass) methods)

/-- The functions of the value meet the demand. -/
def Value.Meets (demand : Demand) : Value → Prop
  | .function found => found.Meets demand
  | .class cls => cls.Meets demand
  | .instance object => object.origin.Meets demand
  | _ => True

/-- All functions that the world contains meet the demand, and natives return nothing else. -/
structure World.Meets (demand : Demand) (world : World) : Prop where
  globals : ∀ entry ∈ world.globals.entries, entry.2.Meets demand
  environments : ∀ (ref : EnvironmentRef) (environment : Environment Value),
    world.forest.environments[ref]? = some environment →
      ∀ value ∈ environment.slots, value.Meets demand
  fields : ∀ (object : Identity) (fields : Table Value), world.fields[object]? = some fields →
    ∀ entry ∈ fields.entries, entry.2.Meets demand
  natives : ∀ (number : Nat) (operation : Operation),
    world.natives[number]? = some operation → operation.AnswersFrom (Value.Meets demand)

variable {demand : Demand}

/-! ## What is found -/

theorem Class.Meets.method? {cls : Class} (meets : cls.Meets demand) {name : String}
    {method : Function} (found : cls.method? name = some method) :
    MethodMeets demand (name, method) := by
  induction meets with
  | base own =>
      simp only [Class.method?] at found
      exact own _ (Table.mem_of_find? found)
  | @derived _ _ _ methods _ own inductionHypothesis =>
      simp only [Class.method?] at found
      cases mine : methods.find? name with
      | none => exact inductionHypothesis (by simpa only [mine] using found)
      | some first =>
          obtain rfl : first = method := by simpa only [mine, Option.some.injEq] using found
          exact own _ (Table.mem_of_find? mine)

/-- What runs when a class makes an instance is an initializer. -/
theorem Class.Meets.initializer? {cls : Class} (meets : cls.Meets demand)
    {initializer : Function} (found : cls.initializer? = some initializer) :
    initializer.Meets demand ∧ initializer.isInitializer = true := by
  obtain ⟨present, notGetter⟩ := Option.filter_eq_some_iff.mp found
  have method := meets.method? present
  have notGetter : initializer.declaration.isGetter = false := by simpa using notGetter
  refine ⟨method.meets, ?_⟩
  rw [method.initializer, Declaration.isInitializer, ← method.name, notGetter]
  rfl

theorem Literal.meets_value (literal : Literal) : literal.value.Meets demand := by
  cases literal <;> trivial

theorem UnaryOperator.meets_apply {operator : UnaryOperator} {operand result : Value}
    (applied : operator.apply operand = .ok result) : result.Meets demand := by
  unfold UnaryOperator.apply at applied
  split at applied
  · obtain rfl := Except.ok.inj applied
    trivial
  · cases applied
  · obtain rfl := Except.ok.inj applied
    trivial

theorem meets_onNumbers {operation : Float → Float → Value} {left right result : Value}
    (plain : ∀ x y, (operation x y).Meets demand)
    (applied : onNumbers operation left right = .ok result) : result.Meets demand := by
  unfold onNumbers at applied
  split at applied
  · obtain rfl := Except.ok.inj applied
    exact plain _ _
  · cases applied

theorem BinaryOperator.meets_apply {operator : BinaryOperator} {left right result : Value}
    (applied : operator.apply left right = .ok result) : result.Meets demand := by
  cases operator with
  | add =>
      simp only [BinaryOperator.apply] at applied
      unfold addValues at applied
      split at applied
      · obtain rfl := Except.ok.inj applied
        trivial
      · obtain rfl := Except.ok.inj applied
        trivial
      · cases applied
  | equal =>
      obtain rfl := Except.ok.inj applied
      trivial
  | notEqual =>
      obtain rfl := Except.ok.inj applied
      trivial
  | _ =>
      refine meets_onNumbers ?_ applied
      intro _ _
      trivial

/-- The functions of the callable meet the demand. -/
def Callable.Meets (demand : Demand) : Callable → Prop
  | .function found => found.Meets demand
  | .class cls => cls.Meets demand
  | .native _ => True

theorem Value.Meets.callable? {value : Value} (meets : value.Meets demand) {callable : Callable}
    (called : value.callable? = some callable) : callable.Meets demand := by
  cases value with
  | function found =>
      obtain rfl := Option.some.inj called
      exact meets
  | native found =>
      obtain rfl := Option.some.inj called
      trivial
  | «class» found =>
      obtain rfl := Option.some.inj called
      exact meets
  | _ => cases called

/-- What can be had from values meets what they meet. -/
theorem Value.From.meets {given : Value → Prop} (meets : ∀ value, given value → value.Meets demand)
    {value : Value} (has : value.From given) : value.Meets demand := by
  induction has with
  | given isGiven => exact meets _ isGiven
  | origin _ inductionHypothesis => exact inductionHypothesis
  | superclass _ inductionHypothesis =>
      cases inductionHypothesis with
      | derived inherited _ => exact inherited
  | _ => trivial

/-- What a native answers meets what its arguments meet. -/
theorem Operation.AnswersFrom.meets {operation : Operation}
    (answers : operation.AnswersFrom (Value.Meets demand)) {moment : Nat}
    {arguments : List Value} (meets : ∀ argument ∈ arguments, argument.Meets demand)
    {result : Value} (answered : operation.answer moment arguments = .ok result) :
    result.Meets demand :=
  (answers moment arguments result answered).meets fun value given =>
    given.elim (meets value) id

namespace World

variable {world : World}

theorem Meets.readLocal (meets : world.Meets demand) {address : Address} {span : Span}
    {value : Value} (reads : world.readLocal address span = .ok value) : value.Meets demand := by
  unfold World.readLocal at reads
  split at reads
  · next found =>
      obtain rfl := Except.ok.inj reads
      obtain ⟨ref, _, there⟩ := Option.bind_eq_some_iff.mp found
      obtain ⟨target, _, slot⟩ := Option.bind_eq_some_iff.mp there
      obtain ⟨environment, present, at_⟩ := Option.bind_eq_some_iff.mp slot
      exact meets.environments target environment present _ (Array.mem_of_getElem? at_)
  · cases reads

theorem Meets.readVariable (meets : world.Meets demand) {reference : Reference} {value : Value}
    (reads : world.readVariable reference = .ok value) : value.Meets demand := by
  unfold World.readVariable at reads
  split at reads
  · exact meets.readLocal reads
  · split at reads
    · next found =>
        obtain rfl := Except.ok.inj reads
        exact meets.globals _ (Table.mem_of_find? found)
    · cases reads

theorem Meets.field? (meets : world.Meets demand) {object : Instance} {name : String}
    {value : Value} (found : world.field? object name = some value) : value.Meets demand := by
  obtain ⟨fields, present, there⟩ := Option.bind_eq_some_iff.mp found
  exact meets.fields _ fields present _ (Table.mem_of_find? there)

/-- The instance of an initializer is a value of the world. -/
theorem Meets.getAt? (meets : world.Meets demand) {ref : EnvironmentRef} {depth slot : Nat}
    {value : Value} (found : world.forest.getAt? ref depth slot = some value) :
    value.Meets demand := by
  obtain ⟨target, _, there⟩ := Option.bind_eq_some_iff.mp found
  obtain ⟨environment, present, at_⟩ := Option.bind_eq_some_iff.mp there
  exact meets.environments target environment present _ (Array.mem_of_getElem? at_)

/-! ## What is changed -/

/-- Nothing but the place, the moment or the output has changed. -/
theorem Meets.moved {after : World} (meets : world.Meets demand)
    (globals : after.globals = world.globals) (forest : after.forest = world.forest)
    (fields : after.fields = world.fields) (natives : after.natives = world.natives) :
    after.Meets demand where
  globals := globals ▸ meets.globals
  environments := forest ▸ meets.environments
  fields := fields ▸ meets.fields
  natives := natives ▸ meets.natives

theorem Meets.tick (meets : world.Meets demand) : world.tick.Meets demand :=
  meets.moved rfl rfl rfl rfl

theorem Meets.insertGlobal (meets : world.Meets demand) (name : String) {value : Value}
    (new : value.Meets demand) :
    World.Meets demand { world with globals := world.globals.insert name value } where
  globals entry member := by
    obtain rfl | before := Table.mem_insert member
    · exact new
    · exact meets.globals entry before
  environments := meets.environments
  fields := meets.fields
  natives := meets.natives

/-- An environment was changed by putting in a value. -/
theorem Meets.modifyEnvironment (meets : world.Meets demand) (ref : EnvironmentRef)
    {change : Environment Value → Environment Value}
    (changed : ∀ (environment : Environment Value) (value : Value),
      value ∈ (change environment).slots → value ∈ environment.slots ∨ value.Meets demand) :
    World.Meets demand
      { world with forest := ⟨world.forest.environments.modify ref change⟩ } where
  globals := meets.globals
  environments other environment found value member := by
    simp only [Array.getElem?_modify] at found
    split at found
    · obtain ⟨before, present, rfl⟩ := Option.map_eq_some_iff.mp found
      obtain old | new := changed before value member
      · exact meets.environments other before present value old
      · exact new
    · exact meets.environments other environment found value member
  fields := meets.fields
  natives := meets.natives

theorem Meets.define (meets : world.Meets demand) (name : String) {value : Value}
    (new : value.Meets demand) : (world.define name value).Meets demand := by
  unfold World.define
  split
  · exact meets.insertGlobal name new
  · next ref _ =>
      refine meets.modifyEnvironment ref fun environment other member => ?_
      obtain old | rfl := Array.mem_push.mp member
      · exact .inl old
      · exact .inr new

theorem Meets.assign (meets : world.Meets demand) (reference : Reference) {value : Value}
    (new : value.Meets demand) : (world.assign reference value).Meets demand := by
  unfold World.assign
  split
  · next address _ =>
      unfold World.assignLocal
      split
      · exact meets
      · unfold Forest.assignAt
        split
        · exact meets
        · next target _ =>
            refine meets.modifyEnvironment target fun environment other member => ?_
            obtain old | rfl := Array.mem_or_eq_of_mem_setIfInBounds member
            · exact .inl old
            · exact .inr new
  · exact meets.insertGlobal reference.name.text new

theorem Meets.allocate (meets : world.Meets demand) (enclosing : Option EnvironmentRef)
    (values : Array Value) (new : ∀ value ∈ values, value.Meets demand) :
    (world.allocate enclosing values).2.Meets demand where
  globals := meets.globals
  environments other environment found value member := by
    simp only [World.allocate, Forest.create, Array.getElem?_push] at found
    split at found
    · obtain rfl := Option.some.inj found
      exact new value member
    · exact meets.environments other environment found value member
  fields := meets.fields
  natives := meets.natives

theorem Meets.enter (meets : world.Meets demand) (enclosing : Option EnvironmentRef)
    {values : Array Value} (new : ∀ value ∈ values, value.Meets demand) :
    (world.enter enclosing values).Meets demand :=
  (meets.allocate enclosing values new).moved rfl rfl rfl rfl

theorem Meets.bindMethod (meets : world.Meets demand) (method : Function) (receiver : Instance)
    (origin : receiver.origin.Meets demand) : (world.bindMethod method receiver).2.Meets demand := by
  have allocated := meets.allocate method.closure #[.instance receiver] (by
    intro value member
    obtain rfl : value = .instance receiver := by simpa using member
    exact origin)
  exact allocated.moved rfl rfl rfl rfl

/-- The methods that are made of declarations meet what the declarations meet. -/
theorem makeMethods_meets {closure : Option EnvironmentRef} {methods : List FunctionDeclaration}
    (declared : ∀ method ∈ methods, demand method method.isInitializer) {entry : String × Function}
    (member : entry ∈ (makeMethods closure methods world).1) : MethodMeets demand entry := by
  induction methods generalizing world with
  | nil => cases member
  | cons method rest inductionHypothesis =>
      obtain rfl | later := List.mem_cons.mp member
      · exact ⟨declared method List.mem_cons_self, rfl, rfl⟩
      · exact inductionHypothesis
          (fun other member => declared other (List.mem_cons_of_mem _ member)) later

theorem Meets.makeMethods (meets : world.Meets demand) (closure : Option EnvironmentRef)
    (methods : List FunctionDeclaration) :
    (makeMethods closure methods world).2.Meets demand := by
  induction methods generalizing world with
  | nil => exact meets
  | cons method rest inductionHypothesis =>
      exact inductionHypothesis (meets.moved rfl rfl rfl rfl)

theorem Meets.makeClass (meets : world.Meets demand) (name : String) {superclass : Option Class}
    (closure : Option EnvironmentRef) {methods : List FunctionDeclaration}
    (declared : ∀ method ∈ methods, demand method method.isInitializer)
    (inherited : ∀ cls ∈ superclass, cls.Meets demand) :
    (world.makeClass name superclass closure methods).2.Meets demand ∧
      (world.makeClass name superclass closure methods).1.Meets demand := by
  refine ⟨(meets.makeMethods closure methods).moved rfl rfl rfl rfl, ?_⟩
  have own : ∀ entry ∈ (Table.ofList (World.makeMethods closure methods world).1).entries,
      MethodMeets demand entry :=
    fun _ member => makeMethods_meets declared (Table.mem_ofList member)
  cases superclass with
  | none => exact .base own
  | some cls => exact .derived (inherited cls rfl) own

theorem Meets.makeInstance (meets : world.Meets demand) (origin : Class) :
    (world.makeInstance origin).2.Meets demand where
  globals := meets.globals
  environments := meets.environments
  fields identity table found entry member := by
    simp only [World.makeInstance, Array.getElem?_push] at found
    split at found
    · obtain rfl := Option.some.inj found
      cases member
    · exact meets.fields identity table found entry member
  natives := meets.natives

theorem Meets.setField (meets : world.Meets demand) (object : Instance) (name : String)
    {value : Value} (new : value.Meets demand) :
    (world.setField object name value).Meets demand where
  globals := meets.globals
  environments := meets.environments
  fields identity table found entry member := by
    simp only [World.setField, Array.getElem?_modify] at found
    split at found
    · obtain ⟨fields, old, rfl⟩ := Option.map_eq_some_iff.mp found
      obtain rfl | before := Table.mem_insert member
      · exact new
      · exact meets.fields identity fields old entry before
    · exact meets.fields identity table found entry member
  natives := meets.natives

/-! ## Between programs -/

theorem Meets.clearOutput (meets : world.Meets demand) : world.clearOutput.Meets demand :=
  meets.moved rfl rfl rfl rfl

/-- What the world contains meets the demand. -/
theorem Meets.of_contains (meets : world.Meets demand) {value : Value}
    (contains : world.Contains value) : value.Meets demand := by
  cases contains with
  | global found => exact meets.globals _ (Table.mem_of_find? found)
  | slot found =>
      obtain ⟨environment, present, there⟩ := Option.bind_eq_some_iff.mp found
      exact meets.environments _ environment present _ (Array.mem_of_getElem? there)
  | field found => exact meets.field? found

theorem Meets.defineNative (meets : world.Meets demand) (name : String) (arity : Nat)
    {operation : Operation} (answers : operation.AnswersFrom (Value.Meets demand)) :
    (world.defineNative name arity operation).Meets demand where
  globals entry member := by
    obtain rfl | before := Table.mem_insert member
    · trivial
    · exact meets.globals entry before
  environments := meets.environments
  fields := meets.fields
  natives number found present := by
    simp only [World.defineNative, Array.getElem?_push] at present
    split at present
    · obtain rfl := Option.some.inj present
      exact answers
    · exact meets.natives number found present

theorem meets_initial (callLimit : Nat) (outlet : Outlet) (clock : Clock) :
    (initial callLimit outlet clock).Meets demand := by
  refine Meets.defineNative ?_ "clock" 0 (Operation.answersFrom_clock _ clock)
  exact ⟨fun _ member => (List.not_mem_nil member).elim,
    fun _ _ found => by simp [Forest.empty] at found, fun _ _ found => by simp at found,
    fun _ _ found => by simp at found⟩

end World

end Lox
