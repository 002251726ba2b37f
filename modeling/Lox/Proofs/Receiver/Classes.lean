import Lox.Proofs.Receiver.Traced
import Lox.Proofs.Running.Calls
import Lox.Proofs.Running.Jumps

/-!
Contract: `this`, `super` and `init` follow the lexical class.

At every step of every run of a session the ledger, which looks at no environment and no
address, tells the outcome: what `this` is, from which class `super` starts its look-up
and what that binds, and that an initializer and the call of a class end with the
instance.

Main statement: `Session.receivers_follow_classes`.

Owns: what the ledger promises at a step. Does not own: that runs agree with the ledger.
-/

set_option autoImplicit false

namespace Lox

open Binding

/-- Breaches that concern `this`, `super` or an initializer. -/
def Fault.Breach.ConcernsClasses : Fault.Breach → Prop
  | .unboundThis | .unboundSuper | .superWithoutThis | .superNotClass | .thisNotInstance
  | .initializerWithoutInstance => True
  | _ => False

/-- A property that is no field: its method is looked up, nearest class first, from the
class on. It is bound to the receiver, as the later ledger tells, and runs at once if it
is a getter. There is a fault only if there is no such method. -/
def Machine.Finds (reached : Machine) (ledger later : Ledger) (world : World) (origin : Class)
    (receiver : Instance) (name : Name) (stack : Stack .value) : Prop :=
  match origin.ancestry.findSome? fun declaring => declaring.methods.find? name.text with
  | none => reached = .raise world (.ofViolation (.undefinedProperty name.text) name.span) stack
  | some method =>
      ∃ bound made,
        bound.declaration = method.declaration ∧
        (bound.isInitializer = true ↔
          name.text = initializerName ∧ method.declaration.isGetter = false) ∧
        later.standingOf bound = ⟨some receiver, ledger.superclassOf method⟩ ∧
        reached =
          if method.declaration.isGetter then .invoke made (.function bound) [] name.span stack
          else .answer made (.function bound) stack

/-- At this step of a run `this`, `super` and `init` mean what the ledger says. -/
structure Machine.FollowsClasses (ledger : Ledger) (machine : Machine) : Prop where
  /-- The entries of the ledger are those of all functions and classes that were made. -/
  complete : ledger.length = machine.world.nextIdentity
  /-- A function that is declared takes over the standing of the body in progress. -/
  function : ∀ world declaration span stack,
    machine = .execute world (.function declaration span) stack →
      ∃ made reached, machine.next = .finish reached .normal stack ∧
        made.declaration = declaration ∧
        reached = (world.makeFunction declaration world.scope false).2.define
          declaration.name.text (.function made) ∧
        (ledger.after machine).standingOf made = ledger.standing stack
  /-- So does an anonymous one. -/
  lambda : ∀ world declaration stack, machine = .evaluate world (.lambda declaration) stack →
    ∃ made reached, machine.next = .answer reached (.function made) stack ∧
      made.declaration = declaration ∧
      (ledger.after machine).standingOf made = ledger.standing stack
  /-- The methods of a class are declared for the superclass that it gets. -/
  «class» : ∀ world name superclass methods span stack inherited,
    machine = .execute world (.class name superclass methods span) stack →
      world.inherited? superclass = some inherited →
        ∃ made reached, machine.next = .finish reached .normal stack ∧
          made.superclass = inherited ∧
          (∃ before : World, reached = before.define name.text (.class made)) ∧
          ∀ entry ∈ made.methods.entries, entry.2.declaration ∈ methods ∧
            (ledger.after machine).superclassOf entry.2 = inherited
  /-- `this` is the receiver of the body in progress. -/
  this : ∀ world address span stack, machine = .evaluate world (.this address span) stack →
    ∃ receiver, (ledger.standing stack).receiver = some receiver ∧
      machine.next = .answer world (.instance receiver) stack
  /-- `super` looks up from the superclass of the body in progress, for its receiver. -/
  super : ∀ world address name span stack,
    machine = .evaluate world (.super address name span) stack →
      ∃ receiver superclass, ledger.standing stack = ⟨some receiver, some superclass⟩ ∧
        machine.next.Finds ledger (ledger.after machine) world superclass receiver name stack
  /-- A property that is no field is looked up from the class of the instance. -/
  property : ∀ world object name stack,
    machine = .answer world (.instance object) (.push (.property name) stack) →
      world.field? object name.text = none →
        machine.next.Finds ledger (ledger.after machine) world object.origin object name stack
  /-- The body of an initializer gives its receiver, whatever it ends with. -/
  initializer : ∀ world flow function span stack,
    machine = .finish world flow (.push (.body function span) stack) →
      function.isInitializer = true →
        ∃ receiver, (ledger.standingOf function).receiver = some receiver ∧
          machine.next = .answer world (.instance receiver) stack
  /-- The call of an initializer that ends at all ends with its receiver. -/
  initializes : ∀ call function, machine.call? = some call → call.callee = .function function →
    function.isInitializer = true →
      ∃ receiver, (ledger.standingOf function).receiver = some receiver ∧
        ∀ value ended, call.Yields value ended → value = .instance receiver ∧
          ∃ steps, machine.run steps = .answer ended value call.stack
  /-- The call of a class that ends at all ends with a new instance of it. -/
  constructs : ∀ call origin, machine.call? = some call → call.callee = .class origin →
    ∀ value ended, call.Yields value ended →
      ∃ object, value = .instance object ∧ object.origin = origin ∧
        call.world.fields[object.identity]? = none ∧
          ∃ steps, machine.run steps = .answer ended value call.stack
  /-- When the body for a new instance ends, whatever it ends with, so does the call of
  the class, with the instance. -/
  constructed : ∀ world flow function span object stack,
    machine = .finish world flow (.push (.body function span) (.push (.construct object) stack)) →
      machine.run 2 = .answer world (.instance object) stack
  /-- No fault says that `this`, `super` or an initializer is not what it should be. -/
  faults : ∀ (awaited : Awaited) world fault (stack : Stack awaited),
    machine = .raise world fault stack → ∀ breach, fault.cause = .breach breach →
      ¬ breach.ConcernsClasses

/-! ## Look-ups -/

section LookUp

variable {ledger : Ledger} {world : World}

/-- The ledger tells what a look-up binds. -/
theorem Machine.finds_methodOf (complete : ledger.length = world.nextIdentity) {origin : Class}
    (meets : origin.Meets .confined) (receiver : Instance) (name : Name) (stack : Stack .value) :
    (methodOf world origin receiver name stack).Finds ledger
      (ledger.lookUp origin receiver name.text) world origin receiver name stack := by
  have same := origin.method?_eq_findSome? name.text
  unfold Finds methodOf Ledger.lookUp
  cases found : origin.method? name.text with
  | none =>
      rw [found] at same
      rw [← same]
  | some method =>
      rw [found] at same
      rw [← same]
      have member := meets.method? found
      have isInitializer : method.isInitializer = true ↔
          name.text = initializerName ∧ method.declaration.isGetter = false := by
        rw [member.initializer, Declaration.isInitializer, ← member.name]
        simp
      refine ⟨(world.bindMethod method receiver).1, (world.bindMethod method receiver).2, rfl,
        isInitializer, ?_, rfl⟩
      have identity : (world.bindMethod method receiver).1.identity = ledger.length :=
        complete.symm
      simp [Ledger.standingOf, Ledger.bind, identity]

end LookUp

/-! ## Declarations -/

/-- The methods of a class get their identities in order. -/
theorem World.identity_of_makeMethods {closure : Option EnvironmentRef}
    {methods : List FunctionDeclaration} {world : World} {entry : String × Function}
    (member : entry ∈ (makeMethods closure methods world).1) :
    ∃ index, methods[index]? = some entry.2.declaration ∧
      entry.2.identity = world.nextIdentity + index := by
  induction methods generalizing world with
  | nil => cases member
  | cons declaration rest inductionHypothesis =>
      obtain rfl | later := List.mem_cons.mp member
      · exact ⟨0, rfl, rfl⟩
      · obtain ⟨index, declared, identity⟩ := inductionHypothesis later
        refine ⟨index + 1, declared, ?_⟩
        rw [identity]
        exact Nat.add_right_comm world.nextIdentity 1 index

/-- The entry that was added last is that of the function made last. -/
theorem Ledger.standingOf_declare {ledger : Ledger} {awaited : Awaited} (stack : Stack awaited)
    {function : Function} (identity : ledger.length = function.identity) :
    (ledger.declare stack).standingOf function = ledger.standing stack := by
  simp [declare, standingOf, ← identity]

/-- The entries of the methods of a class are where their identities say. -/
theorem Ledger.superclassOf_declareClass {ledger : Ledger} {superclass : Option Class}
    {methods : List FunctionDeclaration} {awaited : Awaited} (stack : Stack awaited)
    {method : Function} {index : Nat}
    (identity : method.identity = ledger.length + index)
    (declared : methods[index]? = some method.declaration) :
    (ledger.declareClass superclass methods stack).superclassOf method = superclass := by
  have inside : index < (methods.map fun _ =>
      (⟨ledger.standing stack, superclass⟩ : Origin)).length := by
    rw [List.length_map]
    exact (List.getElem?_eq_some_iff.mp declared).1
  have present : (ledger.declareClass superclass methods stack)[method.identity]? =
      some ⟨ledger.standing stack, superclass⟩ := by
    rw [declareClass, identity, List.getElem?_append_right (Nat.le_add_right _ _),
      Nat.add_sub_cancel_left, List.getElem?_append_left inside, List.getElem?_map, declared]
    rfl
  simp [superclassOf, present]

/-! ## Runs by name -/

namespace Lexical

variable {world : World} {ledger : Ledger} {outlet : Outlet}

/-- An initializer has a receiver, and finds it at its end. -/
theorem receiver_of_initializer (sound : world.Sound outlet) (records : world.Records ledger)
    {function : Function} (known : world.KnowsFunction function)
    (initializer : function.isInitializer = true) :
    ∃ receiver, (ledger.standingOf function).receiver = some receiver ∧
      (function.closure.bind fun ref => world.erase.forest.getAt? ref 0 0) =
        some (.instance receiver) := by
  obtain ⟨ref, outer, home⟩ := known.receiver initializer
  have knownHome := known.home
  rw [home] at knownHome
  obtain ⟨⟨activation, found, _, seen⟩, _⟩ := knownHome
  have numbers : world.Numbers ref "this" 0 :=
    ⟨activation, found, List.prefix_iff_getElem?.mp seen 0 (by simp)⟩
  have cell := World.cell?_eq_slot? sound numbers
  obtain ⟨value, filled, entry⟩ := World.cell?_filled sound World.not_plain_this cell
  obtain ⟨receiver, same⟩ := entry.receiver rfl
  obtain rfl : value = .instance receiver := same
  refine ⟨receiver, ?_, ?_⟩
  · rw [← records.ledger, World.standingOf_ledger, home]
    simp [World.standing, World.receiverIn, cell, filled]
  · rw [known.closure, home]
    exact filled

/-- `super` looks up from what the ledger says. -/
theorem superMethod_eq_methodOf {address : Option Address} {stack : Stack .value}
    (ready : world.Ready outlet) (inherits : Inherits world.setting.context)
    (bound : address = addressIn "super" world.setting.context)
    (here : world.Here ledger world.scope stack) (name : Name) (span : Span) :
    ∃ receiver superclass depth, ledger.standing stack = ⟨some receiver, some superclass⟩ ∧
      world.erase.readLocal ⟨depth, 0⟩ span = .ok (.class superclass) ∧
      Lox.Machine.superMethod world.erase address name span stack =
        .methodOf world.erase superclass receiver name stack := by
  obtain ⟨receiver, superclass, standing, _, _, thisFound, superFound⟩ :=
    standing_of_inherits ready inherits here span
  obtain ⟨depth, superAddress, thisAddress⟩ := inherits.addresses
  obtain ⟨found, foundSuper, _, superBehind⟩ := World.read_super ready superAddress span
  obtain ⟨object, foundThis, _, thisBehind⟩ := World.read_this ready thisAddress span
  rw [superFound] at foundSuper
  rw [thisFound] at foundThis
  cases foundSuper
  cases foundThis
  refine ⟨receiver, superclass, depth + 1, standing, superBehind, ?_⟩
  rw [bound, superAddress]
  simp only [Lox.Machine.superMethod, superBehind, thisBehind]

end Lexical

/-! ## Ledgers only grow -/

namespace Ledger

theorem prefix_given (ledger : Ledger) (world : World) (found : Value) {outcome : Awaited}
    (frame : Frame .value outcome) : ledger <+: ledger.given world found frame := by
  have call (count : Nat) (callee : Value) : ledger <+: ledger.call world count callee := by
    unfold call
    split
    · split
      · split
        · exact List.prefix_append _ _
        · exact List.prefix_rfl
      · exact List.prefix_rfl
    · exact List.prefix_rfl
  unfold given
  split
  · split
    · split
      · exact List.prefix_rfl
      · unfold lookUp
        split
        · exact List.prefix_append _ _
        · exact List.prefix_rfl
    · exact List.prefix_rfl
  · exact call _ _
  · exact call _ _
  · exact List.prefix_rfl

theorem prefix_after (ledger : Ledger) (machine : Machine) : ledger <+: ledger.after machine := by
  unfold after
  split
  · exact List.prefix_append _ _
  · split
    · unfold lookUp
      split
      · exact List.prefix_append _ _
      · exact List.prefix_rfl
    · exact List.prefix_rfl
  · exact List.prefix_append _ _
  · split
    · exact List.prefix_append _ _
    · exact List.prefix_rfl
  · exact prefix_given ledger _ _ _
  · exact List.prefix_rfl

theorem prefix_behind (steps : Nat) (machine : Machine) (ledger : Ledger) :
    ledger <+: ledger.behind steps machine := by
  induction steps generalizing machine ledger with
  | zero => exact List.prefix_rfl
  | succ steps inductionHypothesis =>
      simp only [behind]
      split
      · exact List.prefix_rfl
      · exact (prefix_after ledger machine).trans (inductionHypothesis _ _)

/-- The standing of a function that was made stays what it is. -/
theorem standingOf_behind (steps : Nat) (machine : Machine) {ledger : Ledger} {function : Function}
    (made : function.identity < ledger.length) :
    (ledger.behind steps machine).standingOf function = ledger.standingOf function := by
  obtain ⟨more, same⟩ := prefix_behind steps machine ledger
  rw [← same]
  exact standingOf_append ledger more made

end Ledger

/-! ## Runs with slots -/

namespace Machine

variable {outlet : Outlet} {ledger : Ledger} {base : Enclosure}

theorem Traced.complete {machine : Machine} (traced : machine.Traced outlet ledger) :
    ledger.length = machine.world.nextIdentity := by
  obtain ⟨named, mirrors, recorded⟩ := traced
  have records : named.world.Records ledger := by
    cases recorded <;> assumption
  rw [mirrors.world.2, ← records.ledger, Lexical.World.length_ledger]
  rfl

/-- The ledger tells for which superclass the methods of a class are. -/
theorem declares_class {world : World} {name : Name} {superclass : Option Reference}
    {methods : List FunctionDeclaration} {span : Span} {stack : Stack .flow}
    {inherited : Option Class}
    (complete : ledger.length = world.nextIdentity)
    (inherits : world.inherited? superclass = some inherited) :
    ∃ made reached, beginStmt world stack (.class name superclass methods span) =
        .finish reached .normal stack ∧
      made.superclass = inherited ∧
      (∃ before : World, reached = before.define name.text (.class made)) ∧
      ∀ entry ∈ made.methods.entries, entry.2.declaration ∈ methods ∧
        (ledger.after (.execute world (.class name superclass methods span) stack)).superclassOf
          entry.2 = inherited := by
  have declares (before : World) (closure : Option EnvironmentRef)
      (same : before.nextIdentity = world.nextIdentity) :
      ∃ made reached, declareClass before name inherited closure methods stack =
          .finish reached .normal stack ∧
        made.superclass = inherited ∧
        (∃ before : World, reached = before.define name.text (.class made)) ∧
        ∀ entry ∈ made.methods.entries, entry.2.declaration ∈ methods ∧
          (ledger.after (.execute world (.class name superclass methods span) stack)).superclassOf
            entry.2 = inherited := by
    refine ⟨(before.makeClass name.text inherited closure methods).1, _, rfl, rfl, ⟨_, rfl⟩, ?_⟩
    intro entry member
    obtain ⟨index, declared, identity⟩ :=
      World.identity_of_makeMethods (Table.mem_ofList member)
    rw [same, ← complete] at identity
    refine ⟨List.mem_of_getElem? declared, ?_⟩
    simp only [Ledger.after, inherits]
    exact Ledger.superclassOf_declareClass stack identity declared
  cases superclass with
  | none =>
      obtain rfl := Option.some.inj inherits
      exact declares world world.scope rfl
  | some reference =>
      simp only [World.inherited?] at inherits
      split at inherits
      · next superclass reads =>
          obtain rfl := Option.some.inj inherits
          simp only [beginStmt, executeClass, reads]
          exact declares (world.allocate world.scope #[.class superclass]).2 _ rfl
      · cases inherits

theorem Traced.this {world : World} {address : Option Address} {span : Span}
    {stack : Stack .value} (traced : Traced outlet ledger (.evaluate world (.this address span) stack)) :
    ∃ receiver, (ledger.standing stack).receiver = some receiver ∧
      beginExpr world stack (.this address span) = .answer world (.instance receiver) stack := by
  obtain ⟨named, mirrors, recorded⟩ := traced
  cases mirrors with
  | @evaluate named _ _ ready bound _ =>
      cases recorded with
      | evaluate _ here _ =>
          obtain ⟨scope, rfl⟩ := bound
          obtain ⟨depth, addressed⟩ := scope.address
          obtain ⟨receiver, found, _, behind⟩ := Lexical.World.read_this ready addressed span
          have standing : named.standing named.place = ledger.standing stack :=
            congrArg Origin.standing here.origin
          refine ⟨receiver, ?_, ?_⟩
          · rw [← standing]
            exact Lexical.World.receiver_of_read addressed found
          · rw [addressed]
            simp only [beginExpr, behind, ofResult]

theorem Traced.super {world : World} {address : Option Address} {name : Name} {span : Span}
    {stack : Stack .value}
    (traced : Traced outlet ledger (.evaluate world (.super address name span) stack))
    (confined : Machine.Confined base (.evaluate world (.super address name span) stack)) :
    ∃ receiver superclass, ledger.standing stack = ⟨some receiver, some superclass⟩ ∧
      (beginExpr world stack (.super address name span)).Finds ledger
        (ledger.after (.evaluate world (.super address name span) stack)) world superclass receiver
        name stack := by
  have complete : ledger.length = world.nextIdentity := traced.complete
  have meets : world.Meets .confined := confined.meets
  obtain ⟨named, mirrors, recorded⟩ := traced
  cases mirrors with
  | evaluate ready bound _ =>
      cases recorded with
      | evaluate _ here _ =>
          obtain ⟨receiver, superclass, depth, standing, atSuper, looksUp⟩ :=
            Lexical.superMethod_eq_methodOf ready bound.1 bound.2 here name span
          have methods : superclass.Meets .confined := meets.readLocal atSuper
          refine ⟨receiver, superclass, standing, ?_⟩
          simp only [beginExpr, looksUp, Ledger.after, standing]
          exact finds_methodOf complete methods receiver name stack

theorem Traced.property {world : World} {object : Instance} {name : Name} {stack : Stack .value}
    (traced : Traced outlet ledger (.answer world (.instance object) (.push (.property name) stack)))
    (confined :
      Machine.Confined base (.answer world (.instance object) (.push (.property name) stack)))
    (noField : world.field? object name.text = none) :
    (Machine.property world object name stack).Finds ledger
      (ledger.after (.answer world (.instance object) (.push (.property name) stack))) world
      object.origin object name stack := by
  have complete : ledger.length = world.nextIdentity := traced.complete
  have methods : object.origin.Meets .confined := by
    cases confined with
    | answer _ found _ => exact found
  simp only [Machine.property, noField, Ledger.after, Ledger.given]
  exact finds_methodOf complete methods object name stack

theorem Traced.initializer {world : World} {flow : Flow} {function : Function} {span : Span}
    {stack : Stack .value}
    (traced : Traced outlet ledger (.finish world flow (.push (.body function span) stack)))
    (initializer : function.isInitializer = true) :
    ∃ receiver, (ledger.standingOf function).receiver = some receiver ∧
      endBody world function span flow stack = .answer world (.instance receiver) stack := by
  obtain ⟨named, mirrors, recorded⟩ := traced
  cases mirrors with
  | finish ready _ fits =>
      cases recorded with
      | finish records _ =>
          obtain ⟨receiver, standing, found⟩ :=
            Lexical.receiver_of_initializer ready.sound records fits.1 initializer
          refine ⟨receiver, standing, ?_⟩
          simp [endBody, initializer, found]

/-- A function that is called has been made, and an initializer has a receiver. -/
theorem Traced.callee {machine : Machine} (traced : machine.Traced outlet ledger) {call : Call}
    {function : Function} (calls : machine.call? = some call)
    (callee : call.callee = .function function) :
    function.identity < ledger.length ∧ (function.isInitializer = true →
      ∃ receiver, (ledger.standingOf function).receiver = some receiver) := by
  obtain ⟨named, mirrors, recorded⟩ := traced
  have known : ∃ world : Lexical.World, world.Sound outlet ∧ world.Records ledger ∧
      world.KnowsFunction function := by
    unfold call? at calls
    split at calls
    · obtain rfl := Option.some.inj calls
      obtain rfl : _ = Value.function function := callee
      cases mirrors with
      | answer ready known _ =>
          cases recorded with
          | answer records _ => exact ⟨_, ready.sound, records, known⟩
    · obtain rfl := Option.some.inj calls
      obtain rfl : _ = Value.function function := callee
      cases mirrors with
      | answer ready _ fits =>
          cases recorded with
          | answer records _ => exact ⟨_, ready.sound, records, fits.1.1⟩
    · cases calls
  obtain ⟨world, sound, records, known⟩ := known
  refine ⟨?_, fun initializer => ?_⟩
  · rw [← records.ledger, Lexical.World.length_ledger]
    exact known.made
  · obtain ⟨receiver, standing, _⟩ :=
      Lexical.receiver_of_initializer sound records known initializer
    exact ⟨receiver, standing⟩

theorem Traced.initializes {machine : Machine} (traced : machine.Traced outlet ledger) {call : Call}
    {function : Function} (calls : machine.call? = some call)
    (callee : call.callee = .function function) (initializer : function.isInitializer = true) :
    ∃ receiver, (ledger.standingOf function).receiver = some receiver ∧
      ∀ value ended, call.Yields value ended → value = .instance receiver := by
  obtain ⟨made, hasReceiver⟩ := traced.callee calls callee
  obtain ⟨receiver, standing⟩ := hasReceiver initializer
  refine ⟨receiver, standing, fun value ended yields => ?_⟩
  obtain ⟨steps, reached, flow, finishes, gives⟩ := body_of_yields calls callee yields
  have later := traced.run steps
  rw [finishes] at later
  obtain ⟨found, stillStanding, ends⟩ := later.initializer initializer
  rw [Ledger.standingOf_behind steps machine made, standing] at stillStanding
  obtain rfl := Option.some.inj stillStanding
  rw [gives] at ends
  cases ends
  rfl

theorem Traced.constructed {world : World} {flow : Flow} {function : Function} {span : Span}
    {object : Instance} {stack : Stack .value}
    (traced : Traced outlet ledger
      (.finish world flow (.push (.body function span) (.push (.construct object) stack))))
    (confined : Machine.Confined base
      (.finish world flow (.push (.body function span) (.push (.construct object) stack)))) :
    (Machine.finish world flow (.push (.body function span) (.push (.construct object) stack))).run
      2 = .answer world (.instance object) stack := by
  have initializer : function.isInitializer = true := by
    cases confined with
    | finish _ _ awaits => exact awaits.2.1
  obtain ⟨receiver, _, ends⟩ := traced.initializer initializer
  show (endBody world function span flow (.push (.construct object) stack)).run 1 = _
  rw [ends]
  rfl

theorem Traced.fault {awaited : Awaited} {world : World} {fault : Fault} {stack : Stack awaited}
    (traced : Traced outlet ledger (.raise world fault stack)) {breach : Fault.Breach}
    (breaks : fault.cause = .breach breach) : ¬ breach.ConcernsClasses := by
  obtain ⟨named, mirrors, _⟩ := traced
  cases mirrors with
  | @raise _ mishap _ _ _ _ shows =>
      intro concerns
      cases mishap with
      | violation violation span =>
          obtain rfl := shows
          cases breaks
      | stackOverflow span =>
          obtain rfl := shows
          cases breaks
      | output reason span =>
          obtain ⟨_, rfl⟩ := shows
          cases breaks
          exact concerns
      | emptyCell name span =>
          obtain ⟨depth, slot, rfl⟩ := shows
          cases breaks
          exact concerns

/-- A run that agrees with its ledger follows the classes. -/
theorem Traced.followsClasses {machine : Machine} (traced : machine.Traced outlet ledger)
    (confined : machine.Confined base) : machine.FollowsClasses ledger where
  complete := traced.complete
  function := by
    rintro world declaration span stack rfl
    exact ⟨_, _, rfl, rfl, rfl, Ledger.standingOf_declare stack traced.complete⟩
  lambda := by
    rintro world declaration stack rfl
    exact ⟨_, _, rfl, rfl, Ledger.standingOf_declare stack traced.complete⟩
  «class» := by
    rintro world name superclass methods span stack inherited rfl inherits
    exact declares_class traced.complete inherits
  this := by
    rintro world address span stack rfl
    exact traced.this
  super := by
    rintro world address name span stack rfl
    exact traced.super confined
  property := by
    rintro world object name stack rfl noField
    exact traced.property confined noField
  initializer := by
    rintro world flow function span stack rfl initializer
    exact traced.initializer initializer
  initializes := by
    intro call function calls callee initializer
    obtain ⟨receiver, standing, ends⟩ := traced.initializes calls callee initializer
    exact ⟨receiver, standing,
      fun value ended yields => ⟨ends value ended yields, run_of_yields calls yields⟩⟩
  constructs := by
    intro call origin calls callee value ended yields
    refine ⟨(call.world.makeInstance origin).1, instance_of_yields callee yields, rfl, ?_,
      run_of_yields calls yields⟩
    simp [World.makeInstance]
  constructed := by
    rintro world flow function span object stack rfl
    exact traced.constructed confined
  faults := by
    rintro awaited world fault stack rfl breach breaks
    exact traced.fault breaks

end Machine

/-! ## Sessions -/

namespace Session

/-- In every statement that a session begins, at every step, `this`, `super` and `init`
follow the classes around them, as the ledger of the session tells. -/
theorem receivers_follow_classes (callLimit : Nat) (outlet : Outlet) (clock : Clock) (budget : Nat)
    {requests : List Request}
    (honest : ServedHonestly budget requests (new callLimit outlet clock)) :
    ∀ entry ∈ Ledger.along budget [] (begun budget requests (new callLimit outlet clock)),
      ∀ steps : Nat,
        ((Machine.execute entry.2.1 entry.2.2 .empty).run steps).FollowsClasses
          (Ledger.behind steps (.execute entry.2.1 entry.2.2 .empty) entry.1) := by
  intro entry member steps
  have traced := (traced_new callLimit outlet clock).begun honest entry member
  have confined : entry.2.1.Meets .confined ∧ entry.2.2.Confined .outside :=
    begun_of_kept (fun _ _ orderly honest => orderly.answer honest)
      (fun _ _ orderly => orderly.begunBy) honest (orderly_new callLimit outlet clock) entry.2
      (Ledger.mem_of_along member)
  have begins : Machine.Confined .outside (.execute entry.2.1 entry.2.2 .empty) :=
    .execute confined.1 confined.2 rfl
  exact (traced.run steps).followsClasses (begins.run steps)

/-- A getter of a superclass that a function inside a method of the subclass reads. -/
def inheritedGetter : String :=
  "class A \x7b init(n) \x7b this.n = n; \x7d name \x7b return this.n; \x7d \x7d " ++
    "class B < A \x7b late() \x7b fun f() \x7b return super.name; \x7d return f; \x7d \x7d " ++
    "B(\"b\").late()();"

/-- The next step reads a method of a superclass. -/
def readsSuper : Machine → Bool
  | .evaluate _ (.super _ _ _) _ => true
  | _ => false

theorem receivers_follow_classes_inheritedGetter :
    ∃ entry ∈ Ledger.along 200 [] (begun 200 [.run inheritedGetter] (new 2048 .working (.still 0))),
      ∃ steps world address name span stack receiver superclass,
        (Machine.execute entry.2.1 entry.2.2 .empty).run steps =
            .evaluate world (.super address name span) stack ∧
          (Ledger.behind steps (.execute entry.2.1 entry.2.2 .empty) entry.1).standing stack =
            ⟨some receiver, some superclass⟩ := by
  have honest : ServedHonestly 200 [.run inheritedGetter] (new 2048 .working (.still 0)) :=
    ⟨trivial, trivial⟩
  have reaches : (Ledger.along 200 []
      (begun 200 [.run inheritedGetter] (new 2048 .working (.still 0)))).any
      (fun entry => readsSuper ((Machine.execute entry.2.1 entry.2.2 .empty).run 34)) = true := by
    decide +kernel
  obtain ⟨entry, member, found⟩ := List.any_eq_true.mp reaches
  unfold readsSuper at found
  split at found
  · next world address name span stack reached =>
      obtain ⟨receiver, superclass, standing, _⟩ :=
        (receivers_follow_classes 2048 .working (.still 0) 200 honest entry member 34).super
          world address name span stack reached
      exact ⟨entry, member, 34, world, address, name, span, stack, receiver, superclass, reached,
        standing⟩
  · cases found

end Session

end Lox
