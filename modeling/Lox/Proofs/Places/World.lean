import Lox.World
import Lox.Proofs.Spelling.Tree

/-!
Contract: values and worlds whose functions stand at other places.

Functions carry the trees that they were declared by, and so do all values that contain
functions. A value is moved by moving these trees. A moved world has moved values, and it
may in addition have printed something before.

Owns: changed tables and forests, moved values and worlds, and their laws. Does not own: what is
done to a moved world.
-/

set_option autoImplicit false

namespace Lox

/-! ## Tables and forests -/

/-- The table with every value changed. -/
def Table.map {α β : Type} (change : α → β) (table : Table α) : Table β :=
  ⟨table.entries.map fun entry => (entry.1, change entry.2)⟩

namespace Table

variable {α β : Type} (change : α → β)

@[simp] theorem names_map (table : Table α) : (table.map change).names = table.names := by
  simp [names, map]

@[simp] theorem find?_map (table : Table α) (name : String) :
    (table.map change).find? name = (table.find? name).map change := by
  obtain ⟨entries⟩ := table
  simp only [find?, map]
  induction entries with
  | nil => rfl
  | cons head tail inductionHypothesis =>
      by_cases same : head.1 = name
      · simp [findIn, same]
      · simp [findIn, same, inductionHypothesis]

@[simp] theorem contains_map (table : Table α) (name : String) :
    (table.map change).contains name = table.contains name := by
  simp [contains]

theorem map_insert (table : Table α) (name : String) (value : α) :
    (table.insert name value).map change = (table.map change).insert name (change value) := by
  obtain ⟨entries⟩ := table
  simp only [insert, map]
  induction entries with
  | nil => rfl
  | cons head tail inductionHypothesis =>
      by_cases same : head.1 = name
      · simp [insertIn, same]
      · simp only [mk.injEq] at inductionHypothesis
        simp [insertIn, same, inductionHypothesis]

theorem map_ofList (entries : List (String × α)) :
    (ofList entries).map change = ofList (entries.map fun entry => (entry.1, change entry.2)) := by
  have folds (start : Table α) :
      (entries.foldl (fun table entry => table.insert entry.1 entry.2) start).map change =
        (entries.map fun entry => (entry.1, change entry.2)).foldl
          (fun table entry => table.insert entry.1 entry.2) (start.map change) := by
    induction entries generalizing start with
    | nil => rfl
    | cons head tail inductionHypothesis =>
        simp only [List.foldl_cons, List.map_cons, inductionHypothesis, map_insert]
  exact folds empty

theorem map_map {γ : Type} (further : β → γ) (table : Table α) :
    (table.map change).map further = table.map (further ∘ change) := by
  simp [map]

@[simp] theorem map_id (table : Table α) : table.map id = table := by
  obtain ⟨entries⟩ := table
  simp [map]

end Table

/-- A change of one entry commutes with a change of all. -/
theorem map_modify {α β : Type} {change : α → β} {edit : α → α} {edited : β → β}
    (commutes : ∀ entry, change (edit entry) = edited (change entry)) (entries : Array α)
    (index : Nat) :
    (entries.modify index edit).map change = (entries.map change).modify index edited := by
  apply Array.ext_getElem?
  intro other
  by_cases same : index = other
  · subst same
    cases present : entries[index]? <;>
      simp [Array.getElem?_map, Array.getElem?_modify, present, commutes]
  · simp [Array.getElem?_map, Array.getElem?_modify, same]

/-- The forest with every value changed. -/
def Forest.map {α β : Type} (change : α → β) (forest : Forest α) : Forest β :=
  ⟨forest.environments.map fun environment => ⟨environment.enclosing, environment.slots.map change⟩⟩

namespace Forest

variable {α β : Type} (change : α → β) (forest : Forest α)

@[simp] theorem next_map : (forest.map change).next = forest.next := by
  simp [next, map]

@[simp] theorem enclosing?_map (ref : EnvironmentRef) :
    (forest.map change).enclosing? ref = forest.enclosing? ref := by
  simp only [enclosing?, map, Array.getElem?_map]
  cases forest.environments[ref]? <;> rfl

@[simp] theorem ancestor?_map (ref : EnvironmentRef) (depth : Nat) :
    (forest.map change).ancestor? ref depth = forest.ancestor? ref depth := by
  induction depth generalizing ref with
  | zero => rfl
  | succ depth inductionHypothesis =>
      simp only [ancestor?, enclosing?_map]
      exact congrArg _ (funext inductionHypothesis)

@[simp] theorem slot?_map (ref : EnvironmentRef) (slot : Nat) :
    (forest.map change).slot? ref slot = (forest.slot? ref slot).map change := by
  simp only [slot?, map, Array.getElem?_map]
  cases forest.environments[ref]? with
  | none => rfl
  | some environment => simp

@[simp] theorem getAt?_map (ref : EnvironmentRef) (depth slot : Nat) :
    (forest.map change).getAt? ref depth slot = (forest.getAt? ref depth slot).map change := by
  simp only [getAt?, ancestor?_map]
  cases forest.ancestor? ref depth <;> simp

@[simp] theorem reaches_map (ref : EnvironmentRef) (depth slot : Nat) :
    (forest.map change).reaches ref depth slot = forest.reaches ref depth slot := by
  simp [reaches]

theorem map_create (enclosing : Option EnvironmentRef) (values : Array α) :
    (forest.create enclosing values).map change =
      (forest.map change).create enclosing (values.map change) := by
  simp [create, map]

theorem map_define (ref : EnvironmentRef) (value : α) :
    (forest.define ref value).map change = (forest.map change).define ref (change value) := by
  simp only [define, map, mk.injEq]
  exact map_modify (fun environment => by simp) forest.environments ref

theorem map_assignAt (ref : EnvironmentRef) (depth slot : Nat) (value : α) :
    (forest.assignAt ref depth slot value).map change =
      (forest.map change).assignAt ref depth slot (change value) := by
  unfold assignAt
  simp only [ancestor?_map]
  split
  · rfl
  · next target _ =>
      simp only [setSlot, map, mk.injEq]
      exact map_modify (fun environment => by simp) forest.environments target

theorem map_map {γ : Type} (further : β → γ) :
    (forest.map change).map further = forest.map (further ∘ change) := by
  simp [map]

@[simp] theorem map_id : forest.map id = forest := by
  obtain ⟨environments⟩ := forest
  simp [map]

end Forest

/-! ## Values -/

/-- The function with its tree at other places. -/
def Function.moved (move : Span → Span) (function : Function) : Function :=
  { function with declaration := movedFunction move function.declaration }

/-- The class with its methods at other places. -/
def Class.moved (move : Span → Span) : Class → Class
  | mk identity name none methods => mk identity name none (methods.map (Function.moved move))
  | mk identity name (some superclass) methods =>
      mk identity name (some (superclass.moved move)) (methods.map (Function.moved move))

/-- The instance with the methods of its class at other places. -/
def Instance.moved (move : Span → Span) (object : Instance) : Instance :=
  ⟨object.identity, object.origin.moved move⟩

/-- The value with its functions at other places. -/
def Value.moved (move : Span → Span) : Value → Value
  | .nil => .nil
  | .boolean value => .boolean value
  | .number value => .number value
  | .string value => .string value
  | .function value => .function (value.moved move)
  | .native value => .native value
  | .class value => .class (value.moved move)
  | .instance value => .instance (value.moved move)

/-- The fault at another place. -/
def Fault.moved (move : Span → Span) (fault : Fault) : Fault := ⟨fault.cause, move fault.span⟩

/-! ## Laws -/

section Laws

variable (first second : Span → Span)

theorem Function.moved_moved (function : Function) :
    (function.moved first).moved second = function.moved (second ∘ first) := by
  simp [Function.moved, movedFunction_movedFunction]

theorem Class.moved_moved : (cls : Class) →
    (cls.moved first).moved second = cls.moved (second ∘ first)
  | mk _ _ none methods => by
      simp [Class.moved, Table.map_map, Function.comp_def, Function.moved_moved]
  | mk _ _ (some superclass) methods => by
      simp [Class.moved, Table.map_map, Function.comp_def, Function.moved_moved,
        Class.moved_moved superclass]

theorem Value.moved_moved (value : Value) :
    (value.moved first).moved second = value.moved (second ∘ first) := by
  cases value with
  | function found => exact congrArg Value.function (found.moved_moved first second)
  | «class» found => exact congrArg Value.class (found.moved_moved first second)
  | «instance» found => simp [Value.moved, Instance.moved, Class.moved_moved]
  | _ => rfl

end Laws

theorem Function.moved_id (function : Function) : function.moved id = function := by
  simp [Function.moved, movedFunction_id]

theorem Class.moved_id : (cls : Class) → cls.moved id = cls
  | mk _ _ none methods => by
      have same : Function.moved id = id := funext Function.moved_id
      simp [Class.moved, same]
  | mk _ _ (some superclass) methods => by
      have same : Function.moved id = id := funext Function.moved_id
      simp [Class.moved, same, Class.moved_id superclass]

theorem Value.moved_id (value : Value) : value.moved id = value := by
  cases value with
  | function found => exact congrArg Value.function found.moved_id
  | «class» found => exact congrArg Value.class found.moved_id
  | «instance» found => simp [Value.moved, Instance.moved, Class.moved_id]
  | _ => rfl

/-! ## Worlds -/

namespace World

/-- The world with all its functions at other places, in which this was printed before. -/
def moved (move : Span → Span) (before : Array String) (world : World) : World :=
  { world with
    globals := world.globals.map (Value.moved move)
    forest := world.forest.map (Value.moved move)
    fields := world.fields.map (Table.map (Value.moved move))
    printed := before ++ world.printed }

/-- To move twice is to move once. -/
theorem moved_moved (first second : Span → Span) (earlier later : Array String) (world : World) :
    (world.moved first earlier).moved second later =
      world.moved (second ∘ first) (later ++ earlier) := by
  have values : Value.moved second ∘ Value.moved first = Value.moved (second ∘ first) :=
    funext (Value.moved_moved first second)
  have tables : Table.map (Value.moved second) ∘ Table.map (Value.moved first) =
      Table.map (Value.moved (second ∘ first)) := by
    rw [← values]
    exact funext fun table => table.map_map _ _
  simp [moved, Table.map_map, Forest.map_map, values, tables]

/-- To move nowhere else changes nothing. -/
theorem moved_id (world : World) : world.moved id #[] = world := by
  have values : Value.moved id = id := funext Value.moved_id
  have tables : Table.map (id : Value → Value) = id := funext Table.map_id
  simp [moved, values, tables]

/-- A world is what it is without its output, behind its output. -/
theorem moved_clearOutput (world : World) :
    world.clearOutput.moved id world.printed = world := by
  have same : world.moved id #[] = world := world.moved_id
  have apart : world.clearOutput.moved id world.printed =
      { world.moved id #[] with printed := world.printed } := by
    simp [moved, clearOutput]
  rw [apart, same]

end World

end Lox
