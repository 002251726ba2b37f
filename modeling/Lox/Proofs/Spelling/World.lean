import Lox.Machine.Operators
import Lox.Proofs.Places.World
import Lox.Proofs.Spelling.Tree

/-!
Contract: values and worlds in another spelling.

Functions carry the trees that they were declared by, and so do all values that contain
functions. An edition of a world has its values in another spelling; its natives may be others
that answer alike, and it may in addition have printed something before. What is done to an
edition gives the edition of the result: values look alike and are equal alike whatever their
spelling, and local variables are found by their addresses.

Owns: respelled values and worlds, their laws, and that each operation of a world commutes with
respelling. Does not own: steps of a run.
-/

set_option autoImplicit false

namespace Lox

/-! ## Values -/

/-- The function in another spelling. -/
def Function.respelled (spelling : Spelling) (function : Function) : Function :=
  { function with declaration := respelledFunction spelling function.declaration }

/-- The class with its methods in another spelling. -/
def Class.respelled (spelling : Spelling) : Class → Class
  | mk identity name none methods => mk identity name none
      (methods.map (Function.respelled spelling))
  | mk identity name (some superclass) methods =>
      mk identity name (some (superclass.respelled spelling))
          (methods.map (Function.respelled spelling))

/-- The instance with the methods of its class in another spelling. -/
def Instance.respelled (spelling : Spelling) (object : Instance) : Instance :=
  ⟨object.identity, object.origin.respelled spelling⟩

/-- The value with its functions in another spelling. -/
def Value.respelled (spelling : Spelling) : Value → Value
  | .nil => .nil
  | .boolean value => .boolean value
  | .number value => .number value
  | .string value => .string value
  | .function value => .function (value.respelled spelling)
  | .native value => .native value
  | .class value => .class (value.respelled spelling)
  | .instance value => .instance (value.respelled spelling)

/-- The callable with its functions in another spelling. -/
def Callable.respelled (spelling : Spelling) : Callable → Callable
  | .function value => .function (value.respelled spelling)
  | .native value => .native value
  | .class value => .class (value.respelled spelling)

/-- A value, or the fault that stands in its place, respelled. -/
def respelledResult (spelling : Spelling) : Except Fault Value → Except Fault Value
  | .ok value => .ok (value.respelled spelling)
  | .error fault => .error (fault.moved spelling.place)

section Values

variable (spelling : Spelling)

@[simp] theorem Function.respelled_arity (function : Function) :
    (function.respelled spelling).arity = function.arity := by
  simp [Function.respelled, Function.arity]

@[simp] theorem Class.respelled_identity (cls : Class) :
    (cls.respelled spelling).identity = cls.identity := by
  cases cls with
  | mk identity name superclass methods => cases superclass <;> rfl

@[simp] theorem Class.respelled_name (cls : Class) : (cls.respelled spelling).name = cls.name := by
  cases cls with
  | mk identity name superclass methods => cases superclass <;> rfl

/-- The superclass moves with the class. -/
theorem Class.respelled_mk (identity : Identity) (name : String) (superclass : Option Class)
    (methods : Table Function) :
    (Class.mk identity name superclass methods).respelled spelling =
      .mk identity name (superclass.map (Class.respelled spelling))
        (methods.map (Function.respelled spelling)) := by
  cases superclass <;> rfl

theorem Class.method?_respelled (name : String) : (cls : Class) →
    (cls.respelled spelling).method? name = (cls.method? name).map (Function.respelled spelling)
  | mk _ _ none methods => by simp [Class.respelled, Class.method?]
  | mk _ _ (some superclass) methods => by
      simp only [Class.respelled, Class.method?, Table.find?_map]
      cases methods.find? name with
      | some found => rfl
      | none => exact Class.method?_respelled name superclass

theorem Class.initializer?_respelled (cls : Class) :
    (cls.respelled spelling).initializer? = cls.initializer?.map (Function.respelled spelling) := by
  simp only [Class.initializer?, Class.method?_respelled]
  cases cls.method? initializerName with
  | none => rfl
  | some method =>
      have sameSort : (method.respelled spelling).declaration.isGetter =
          method.declaration.isGetter :=
        respelledFunction_isGetter spelling method.declaration
      simp only [Option.map_some, Option.filter_some, sameSort]
      split <;> rfl

@[simp] theorem Callable.respelled_arity (callable : Callable) :
    (callable.respelled spelling).arity = callable.arity := by
  cases callable with
  | function value => exact value.respelled_arity spelling
  | native value => rfl
  | «class» value =>
      simp only [Callable.respelled, Callable.arity, Class.initializer?_respelled]
      cases value.initializer? with
      | none => rfl
      | some initializer => exact initializer.respelled_arity spelling

namespace Value

@[simp] theorem respelled_nil : Value.nil.respelled spelling = .nil := rfl

@[simp] theorem respelled_boolean (truth : Bool) : (Value.boolean truth).respelled spelling =
    .boolean truth :=
  rfl

@[simp] theorem respelled_number (number : Float) : (Value.number number).respelled spelling =
    .number number :=
  rfl

@[simp] theorem respelled_isTruthy (value : Value) : (value.respelled spelling).isTruthy =
    value.isTruthy := by
  cases value <;> rfl

@[simp] theorem respelled_display (value : Value) : (value.respelled spelling).display =
    value.display := by
  cases value <;> simp [respelled, display, Function.respelled, Instance.respelled]

theorem callable?_respelled (value : Value) :
    (value.respelled spelling).callable? = value.callable?.map (Callable.respelled spelling) := by
  cases value <;> rfl

@[simp] theorem equal_respelled (left right : Value) :
    (left.respelled spelling).equal (right.respelled spelling) = left.equal right := by
  cases left <;> cases right <;> simp [respelled, equal, Function.respelled, Instance.respelled]

end Value

@[simp] theorem Literal.respelled_value (literal : Literal) :
    literal.value.respelled spelling = literal.value := by
  cases literal <;> rfl

/-! ## Laws -/

section Laws

variable (first second : Spelling)

theorem Function.respelled_respelled (function : Function) :
    (function.respelled first).respelled second = function.respelled (second.after first) := by
  simp [Function.respelled, respelledFunction_respelledFunction]

theorem Class.respelled_respelled : (cls : Class) →
    (cls.respelled first).respelled second = cls.respelled (second.after first)
  | mk _ _ none methods => by
      simp [Class.respelled, Table.map_map, Function.comp_def, Function.respelled_respelled]
  | mk _ _ (some superclass) methods => by
      simp [Class.respelled, Table.map_map, Function.comp_def, Function.respelled_respelled,
        Class.respelled_respelled superclass]

theorem Value.respelled_respelled (value : Value) :
    (value.respelled first).respelled second = value.respelled (second.after first) := by
  cases value with
  | function found => exact congrArg Value.function (found.respelled_respelled first second)
  | «class» found => exact congrArg Value.class (found.respelled_respelled first second)
  | «instance» found => simp [Value.respelled, Instance.respelled, Class.respelled_respelled]
  | _ => rfl

end Laws

section Moving

variable (move : Span → Span)

theorem Function.respelled_moving (function : Function) :
    function.respelled (.moving move) = function.moved move := by
  simp [Function.respelled, Function.moved, respelledFunction_moving]

theorem Class.respelled_moving : (cls : Class) → cls.respelled (.moving move) = cls.moved move
  | mk _ _ none methods => by
      have same : Function.respelled (.moving move) = Function.moved move :=
        funext (Function.respelled_moving move)
      simp [Class.respelled, Class.moved, same]
  | mk _ _ (some superclass) methods => by
      have same : Function.respelled (.moving move) = Function.moved move :=
        funext (Function.respelled_moving move)
      simp [Class.respelled, Class.moved, same, Class.respelled_moving superclass]

theorem Instance.respelled_moving (object : Instance) :
    object.respelled (.moving move) = object.moved move :=
  congrArg (Instance.mk object.identity) (object.origin.respelled_moving move)

/-- Where names are kept, a respelled value is moved. -/
theorem Value.respelled_moving (value : Value) :
    value.respelled (.moving move) = value.moved move := by
  cases value with
  | function found => exact congrArg Value.function (found.respelled_moving move)
  | «class» found => exact congrArg Value.class (found.respelled_moving move)
  | «instance» found => exact congrArg Value.instance (found.respelled_moving move)
  | _ => rfl

end Moving

/-! ## Operators -/

theorem UnaryOperator.apply_respelled (operator : UnaryOperator) (operand : Value) :
    operator.apply (operand.respelled spelling) = (operator.apply operand).map
        (Value.respelled spelling) := by
  cases operator with
  | negate => cases operand <;> rfl
  | not => simp [UnaryOperator.apply, Except.map]

theorem onNumbers_respelled {operation : Float → Float → Value}
    (plain : ∀ x y, (operation x y).respelled spelling = operation x y) (left right : Value) :
    onNumbers operation (left.respelled spelling) (right.respelled spelling) =
      (onNumbers operation left right).map (Value.respelled spelling) := by
  cases left <;> cases right <;> first | rfl | exact congrArg Except.ok (plain _ _).symm

theorem BinaryOperator.apply_respelled (operator : BinaryOperator) (left right : Value) :
    operator.apply (left.respelled spelling) (right.respelled spelling) =
      (operator.apply left right).map (Value.respelled spelling) := by
  cases operator with
  | add => cases left <;> cases right <;> rfl
  | equal => simp [BinaryOperator.apply, Except.map]
  | notEqual => simp [BinaryOperator.apply, Except.map]
  | _ => exact onNumbers_respelled spelling (fun _ _ => rfl) left right

@[simp] theorem LogicalOperator.isDecidedBy_respelled (operator : LogicalOperator) (value : Value) :
    operator.isDecidedBy (value.respelled spelling) = operator.isDecidedBy value := by
  cases operator <;> simp [LogicalOperator.isDecidedBy]

end Values

/-! ## Worlds -/

/-- A spelling for a whole world, with what its natives become and what was printed before. -/
structure Edition extends Spelling where
  recast : Operation → Operation
  before : Array String

instance : Coe Edition Spelling := ⟨Edition.toSpelling⟩

namespace World

/-- The edition of the world. -/
def respelled (edition : Edition) (world : World) : World :=
  { world with
    globals := world.globals.map (Value.respelled edition)
    forest := world.forest.map (Value.respelled edition)
    fields := world.fields.map (Table.map (Value.respelled edition))
    natives := world.natives.map edition.recast
    printed := edition.before ++ world.printed }

variable (edition : Edition) (world : World)

/-- Inside a scope the name of a variable does not matter. -/
theorem respelled_define (name : Name) (value : Value) :
    (world.respelled edition).define (name.respelled edition world.scope.isSome).text
        (value.respelled edition) =
      (world.define name.text value).respelled edition := by
  have sameScope : (world.respelled edition).scope = world.scope := rfl
  simp only [define, sameScope]
  cases scope : world.scope with
  | none => simp [respelled, Table.map_insert]
  | some ref => simp [respelled, Forest.map_define]

/-- The names of functions and classes are kept. -/
theorem respelled_define_kept (name : String) (value : Value) :
    (world.respelled edition).define name (value.respelled edition) =
      (world.define name value).respelled edition := by
  have sameScope : (world.respelled edition).scope = world.scope := rfl
  simp only [define, sameScope]
  split
  · simp [respelled, Table.map_insert]
  · simp [respelled, Forest.map_define]

theorem respelled_readLocal (address : Address) (span : Span) :
    (world.respelled edition).readLocal address (edition.place span) =
      respelledResult edition (world.readLocal address span) := by
  have sameSlot : ((world.respelled edition).scope.bind fun ref =>
      (world.respelled edition).forest.getAt? ref address.depth address.slot) =
        (world.scope.bind fun ref => world.forest.getAt? ref address.depth address.slot).map
          (Value.respelled edition) := by
    cases scope : world.scope <;> simp [respelled, scope]
  simp only [readLocal, sameSlot]
  cases world.scope.bind fun ref => world.forest.getAt? ref address.depth address.slot <;> rfl

theorem respelled_readVariable (reference : Reference) :
    (world.respelled edition).readVariable (reference.respelled edition) =
      respelledResult edition (world.readVariable reference) := by
  cases address : reference.address with
  | some found =>
      simp only [readVariable, Reference.respelled_address, address]
      exact world.respelled_readLocal edition found reference.name.span
  | none =>
      have text := reference.respelled_text_of_unbound edition address
      simp only [readVariable, Reference.respelled_address, address, text, respelled,
          Table.find?_map]
      cases world.globals.find? reference.name.text <;> rfl

theorem respelled_assignmentFault? (reference : Reference) :
    (world.respelled edition).assignmentFault? (reference.respelled edition) =
      (world.assignmentFault? reference).map (Fault.moved edition.place) := by
  cases address : reference.address with
  | some found =>
      simp only [assignmentFault?, Reference.respelled_address, address, localFault?, respelled,
        Forest.reaches_map]
      split <;> rfl
  | none =>
      have text := reference.respelled_text_of_unbound edition address
      simp only [assignmentFault?, Reference.respelled_address, address, text, respelled,
        Table.contains_map]
      split <;> rfl

theorem respelled_assign (reference : Reference) (value : Value) :
    (world.respelled edition).assign (reference.respelled edition) (value.respelled edition) =
      (world.assign reference value).respelled edition := by
  cases address : reference.address with
  | some found =>
      simp only [assign, Reference.respelled_address, address, assignLocal]
      cases scope : world.scope with
      | none => simp [respelled, scope]
      | some ref => simp [respelled, scope, Forest.map_assignAt]
  | none =>
      have text := reference.respelled_text_of_unbound edition address
      simp [assign, address, text, respelled, Table.map_insert]

theorem respelled_allocate (enclosing : Option EnvironmentRef) (values : Array Value) :
    (world.respelled edition).allocate enclosing (values.map (Value.respelled edition)) =
      ((world.allocate enclosing values).1,
        (world.allocate enclosing values).2.respelled edition) := by
  simp [allocate, respelled, Forest.map_create]

theorem respelled_enter (enclosing : Option EnvironmentRef) (values : Array Value) :
    (world.respelled edition).enter enclosing (values.map (Value.respelled edition)) =
      (world.enter enclosing values).respelled edition := by
  simp only [enter, respelled_allocate]
  rfl

theorem respelled_makeFunction (declaration : FunctionDeclaration) (closure : Option EnvironmentRef)
    (isInitializer : Bool) :
    (world.respelled edition).makeFunction (respelledFunction edition declaration) closure
        isInitializer =
      ((world.makeFunction declaration closure isInitializer).1.respelled edition,
        (world.makeFunction declaration closure isInitializer).2.respelled edition) := rfl

theorem respelled_makeMethods (closure : Option EnvironmentRef)
    (methods : List FunctionDeclaration) :
    makeMethods closure (respelledFunctions edition methods) (world.respelled edition) =
      ((makeMethods closure methods world).1.map fun entry => (entry.1, entry.2.respelled edition),
        (makeMethods closure methods world).2.respelled edition) := by
  induction methods generalizing world with
  | nil => rfl
  | cons declaration rest inductionHypothesis =>
      simp only [respelledFunctions, makeMethods, respelled_makeFunction,
        respelledFunction_isInitializer, inductionHypothesis, respelledFunction_name,
        Name.moved_text, List.map_cons]

theorem respelled_makeClass (name : String) (superclass : Option Class)
    (closure : Option EnvironmentRef) (methods : List FunctionDeclaration) :
    (world.respelled edition).makeClass name (superclass.map (Class.respelled edition)) closure
        (respelledFunctions edition methods) =
      ((world.makeClass name superclass closure methods).1.respelled edition,
        (world.makeClass name superclass closure methods).2.respelled edition) := by
  simp only [makeClass, respelled_makeMethods, Class.respelled_mk, Table.map_ofList]
  rfl

theorem respelled_makeInstance (origin : Class) :
    (world.respelled edition).makeInstance (origin.respelled edition) =
      ((world.makeInstance origin).1.respelled edition,
        (world.makeInstance origin).2.respelled edition) := by
  simp [makeInstance, respelled, Instance.respelled, Table.map, Table.empty]

theorem respelled_bindMethod (method : Function) (receiver : Instance) :
    (world.respelled edition).bindMethod (method.respelled edition) (receiver.respelled edition) =
      ((world.bindMethod method receiver).1.respelled edition,
        (world.bindMethod method receiver).2.respelled edition) := by
  have allocated := world.respelled_allocate edition method.closure #[.instance receiver]
  have values : #[Value.instance receiver].map (Value.respelled edition) =
      #[.instance (receiver.respelled edition)] := by
    simp [Value.respelled]
  rw [values] at allocated
  simp only [bindMethod, Function.respelled, allocated, respelled_makeFunction]

theorem respelled_field? (object : Instance) (name : String) :
    (world.respelled edition).field? (object.respelled edition) name =
      (world.field? object name).map (Value.respelled edition) := by
  simp only [field?, respelled, Instance.respelled, Array.getElem?_map]
  cases world.fields[object.identity]? <;> simp

theorem respelled_setField (object : Instance) (name : String) (value : Value) :
    (world.respelled edition).setField (object.respelled edition) name (value.respelled edition) =
      (world.setField object name value).respelled edition := by
  have modified :
      (world.fields.modify object.identity fun fields => fields.insert name value).map
          (Table.map (Value.respelled edition)) =
        (world.fields.map (Table.map (Value.respelled edition))).modify object.identity
          fun fields => fields.insert name (value.respelled edition) :=
    map_modify (fun fields => fields.map_insert _ name value) world.fields object.identity
  simp only [setField, respelled, Instance.respelled, ← modified]

theorem respelled_printFault? (span : Span) :
    (world.respelled edition).printFault? (edition.place span) =
      (world.printFault? span).map (Fault.moved edition.place) := by
  simp only [printFault?, respelled, Option.map_map]
  rfl

theorem respelled_print (line : String) :
    (world.respelled edition).print line = (world.print line).respelled edition := by
  simp [print, respelled]

end World

end Lox
