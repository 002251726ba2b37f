import Lox.Proofs.Running.Begun

/-!
Contract: what `this` and `super` are to mean, told from what has happened.

The ledger of a run has an entry for every function and class that was made, in the
order of their identities. A function that is declared takes over the standing of the
body in which its declaration is reached. A method is declared for the superclass that
its class got at that moment. When a method is bound, `this` is its receiver in the body
of the bound function, and `super` begins with the superclass that the method was
declared for. No environment and no address is looked at.

Owns: ledgers, and how one step and a session carry them on. Does not own: that a run
agrees with its ledger.
-/

set_option autoImplicit false

namespace Lox

/-- What `this` and `super` mean in a body: the instance, and the class with which a
look-up begins. -/
structure Standing where
  receiver : Option Instance
  superclass : Option Class

/-- Outside all methods there is neither. -/
def Standing.outside : Standing := ⟨none, none⟩

/-- Where a function comes from: the standing of its body, and, if it is a method, the
superclass of its class. -/
structure Origin where
  standing : Standing
  superclass : Option Class

/-- The origins of all functions made so far. A class has an entry too, which says
nothing. -/
abbrev Ledger := List Origin

/-- The function whose body is the innermost one in progress. -/
def Stack.function? : {awaited : Awaited} → Stack awaited → Option Function
  | _, .empty => none
  | _, .push (.body function _) _ => some function
  | _, .push _ rest => rest.function?

/-- The superclass of the class that is being declared, none for a base class, unless
there is no such class. -/
def World.inherited? (world : World) : Option Reference → Option (Option Class)
  | none => some none
  | some reference =>
      match world.readVariable reference with
      | .ok (.class superclass) => some (some superclass)
      | _ => none

namespace Class

/-- The class, its superclass, the superclass of that, and so on. -/
def ancestry : Class → List Class
  | mk identity name none methods => [mk identity name none methods]
  | mk identity name (some superclass) methods =>
      mk identity name (some superclass) methods :: superclass.ancestry

/-- A method is found in the nearest class that declares it. -/
theorem method?_eq_findSome? (name : String) (cls : Class) :
    cls.method? name = cls.ancestry.findSome? fun declaring => declaring.methods.find? name := by
  match cls with
  | mk identity text none methods => simp [method?, ancestry, Class.methods]
  | mk identity text (some superclass) methods =>
      have above := method?_eq_findSome? name superclass
      have own : (mk identity text (some superclass) methods).methods = methods := rfl
      simp only [method?, ancestry, List.findSome?_cons, own, above]
      cases methods.find? name <;> rfl

end Class

namespace Ledger

/-- The standing of the body of a function. -/
def standingOf (ledger : Ledger) (function : Function) : Standing :=
  ((ledger[function.identity]?).map Origin.standing).getD .outside

/-- The superclass that a method was declared for. -/
def superclassOf (ledger : Ledger) (method : Function) : Option Class :=
  (ledger[method.identity]?).bind Origin.superclass

/-- The standing of whatever runs above these frames. -/
def standing (ledger : Ledger) {awaited : Awaited} (stack : Stack awaited) : Standing :=
  (stack.function?.map ledger.standingOf).getD .outside

/-- A function is declared. -/
def declare (ledger : Ledger) {awaited : Awaited} (stack : Stack awaited) : Ledger :=
  ledger ++ [⟨ledger.standing stack, none⟩]

/-- A class is declared, and its methods before it. -/
def declareClass (ledger : Ledger) (superclass : Option Class)
    (methods : List FunctionDeclaration) {awaited : Awaited} (stack : Stack awaited) : Ledger :=
  ledger ++ ((methods.map fun _ => ⟨ledger.standing stack, superclass⟩) ++ [⟨.outside, none⟩])

/-- A method is bound to a receiver. -/
def bind (ledger : Ledger) (method : Function) (receiver : Instance) : Ledger :=
  ledger ++ [⟨⟨some receiver, ledger.superclassOf method⟩, none⟩]

/-- The method of a name is looked up in a class and bound, if there is one. -/
def lookUp (ledger : Ledger) (origin : Class) (receiver : Instance) (name : String) : Ledger :=
  match origin.method? name with
  | some method => ledger.bind method receiver
  | none => ledger

/-- A value is called with so many arguments. If it is a class, and the call starts, its
initializer is bound to the new instance. -/
def call (ledger : Ledger) (world : World) (count : Nat) : Value → Ledger
  | .class origin =>
      match origin.initializer? with
      | some initializer =>
          if count = initializer.arity ∧ world.callDepth < world.callLimit then
            ledger.bind initializer (world.makeInstance origin).1
          else ledger
      | none => ledger
  | _ => ledger

/-- A frame gets its value. -/
def given (ledger : Ledger) (world : World) (found : Value) {outcome : Awaited} :
    Frame .value outcome → Ledger
  | .property name =>
      match found with
      | .instance object =>
          match world.field? object name.text with
          | some _ => ledger
          | none => ledger.lookUp object.origin object name.text
      | _ => ledger
  | .callee [] _ => ledger.call world 0 found
  | .argument callee before [] _ => ledger.call world (before.length + 1) callee
  | _ => ledger

/-- The ledger behind the next step of a machine. -/
def after (ledger : Ledger) : Machine → Ledger
  | .evaluate _ (.lambda _) stack => ledger.declare stack
  | .evaluate _ (.super _ name _) stack =>
      match ledger.standing stack with
      | ⟨some receiver, some superclass⟩ => ledger.lookUp superclass receiver name.text
      | _ => ledger
  | .execute _ (.function _ _) stack => ledger.declare stack
  | .execute world (.class _ superclass methods _) stack =>
      match world.inherited? superclass with
      | some inherited => ledger.declareClass inherited methods stack
      | none => ledger
  | .answer world found (.push frame _) => ledger.given world found frame
  | _ => ledger

/-- The ledger behind so many steps, or as soon as the machine is done. -/
def behind : Nat → Machine → Ledger → Ledger
  | 0, _, ledger => ledger
  | steps + 1, machine, ledger =>
      if machine.isDone then ledger else behind steps machine.next (ledger.after machine)

/-- The statements that were begun, each with the ledger at its beginning. -/
def along (budget : Nat) : Ledger → List (World × Stmt) → List (Ledger × World × Stmt)
  | _, [] => []
  | ledger, (world, stmt) :: rest =>
      (ledger, world, stmt) :: along budget (behind budget (.execute world stmt .empty) ledger) rest

end Ledger

end Lox
