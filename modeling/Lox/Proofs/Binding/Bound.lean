import Lox.Proofs.Binding.Unbound
import Lox.Proofs.Binding.Yields

/-!
Contract: what the pass over names achieves.

A context lists the names in view at a place of a program, scope by scope. A tree is
`Bound` in a context if every use of a name has the address of that name in the
context of its own place, where a declaration is in view from its own place on; if no
scope declares a name twice; and if `this` and `super` stand only in methods.

Main statement: `bound_resolveStmts`. If the pass finds no error in a tree as it was
read, the tree that it yields is bound.

Owns: contexts, `Bound`, and soundness of the pass. Does not own: running.
-/

set_option autoImplicit false

namespace Lox

namespace Binding

/-! ## Contexts -/

/-- The names in view, those of each scope in the order of their declarations, and
the innermost scope first. -/
abbrev Context := List (List String)

/-- The address of a name in a context. -/
def addressIn (name : String) : Context → Option Address
  | [] => none
  | names :: outer =>
      match names.idxOf? name with
      | some slot => some ⟨0, slot⟩
      | none => (addressIn name outer).map inward

/-- The names of a stack of scopes. -/
def contextOf (scopes : List Scope) : Context := scopes.map fun scope => scope.map Local.name

theorem address?_eq_addressIn (name : String) (scopes : List Scope) :
    address? name scopes = addressIn name (contextOf scopes) := by
  induction scopes with
  | nil => rfl
  | cons scope outer inductionHypothesis =>
      have slots : scope.slot? name = (scope.map Local.name).idxOf? name := by
        simp only [Scope.slot?, List.idxOf?, List.findIdx?_map]
        rfl
      have outward : addressIn name (contextOf outer) = address? name outer :=
        inductionHypothesis.symm
      simp only [address?, contextOf, List.map_cons, addressIn, slots]
      rw [← outward]
      rfl

/-- A declaration in the innermost scope; at top level there is none. -/
def declareIn (name : String) : Context → Context
  | [] => []
  | names :: outer => (names ++ [name]) :: outer

/-- The innermost scope does not declare the name yet. -/
def Undeclared (name : String) (context : Context) : Prop :=
  ∀ names ∈ context.head?, name ∉ names

/-- The innermost scope that has a `this` has it first. -/
def Receiver : Context → Prop
  | [] => False
  | names :: outer => names.head? = some "this" ∨ ("this" ∉ names ∧ Receiver outer)

/-- The innermost scope that has a `this` has it first, and stands right inside the
innermost scope that has a `super`, which has it first. -/
def Inherits : Context → Prop
  | [] => False
  | names :: outer =>
      "super" ∉ names ∧
        ((names.head? = some "this" ∧ ∃ others more, outer = ("super" :: others) :: more) ∨
          ("this" ∉ names ∧ Inherits outer))

/-- What the innermost class around a place says about the scopes in view. -/
structure Within (kind : ClassKind) (context : Context) : Prop where
  receiver : kind ≠ .none → Receiver context
  inherits : kind = .subclass → Inherits context

theorem plain_ne_this {text : String} (plain : Plain text) : text ≠ "this" :=
  plain.ne_text .this

theorem plain_ne_super {text : String} (plain : Plain text) : text ≠ "super" :=
  plain.ne_text .super

theorem Within.inside {kind : ClassKind} {context : Context} (within : Within kind context)
    {names : List String} (plain : ∀ name ∈ names, Plain name) :
    Within kind (names :: context) where
  receiver inClass := by
    have noThis : "this" ∉ names := fun member => plain_ne_this (plain _ member) rfl
    exact .inr ⟨noThis, within.receiver inClass⟩
  inherits inClass := by
    have noThis : "this" ∉ names := fun member => plain_ne_this (plain _ member) rfl
    have noSuper : "super" ∉ names := fun member => plain_ne_super (plain _ member) rfl
    exact ⟨noSuper, .inr ⟨noThis, within.inherits inClass⟩⟩

theorem head?_append_singleton {names : List String} {name found : String}
    (head : names.head? = some found) : (names ++ [name]).head? = some found := by
  cases names with
  | nil => cases head
  | cons first rest => exact head

theorem Within.declareIn {kind : ClassKind} {context : Context} (within : Within kind context)
    {name : String} (plain : Plain name) : Within kind (declareIn name context) := by
  cases context with
  | nil => exact within
  | cons names outer =>
      have notThis : "this" ≠ name := (plain_ne_this plain).symm
      have notSuper : "super" ≠ name := (plain_ne_super plain).symm
      refine ⟨?_, ?_⟩
      · intro inClass
        obtain head | ⟨absent, outside⟩ := within.receiver inClass
        · exact .inl (head?_append_singleton head)
        · exact .inr ⟨by simp [absent, notThis], outside⟩
      · intro inClass
        obtain ⟨noSuper, ⟨head, inherited⟩ | ⟨absent, outside⟩⟩ := within.inherits inClass
        · exact ⟨by simp [noSuper, notSuper], .inl ⟨head?_append_singleton head, inherited⟩⟩
        · exact ⟨by simp [noSuper, notSuper], .inr ⟨by simp [absent, notThis], outside⟩⟩

theorem addressIn_of_idxOf? {names : List String} {name : String} {slot : Nat} (outer : Context)
    (position : names.idxOf? name = some slot) :
    addressIn name (names :: outer) = some ⟨0, slot⟩ := by
  simp [addressIn, position]

theorem addressIn_of_head? {names : List String} {name : String} (outer : Context)
    (head : names.head? = some name) : addressIn name (names :: outer) = some ⟨0, 0⟩ := by
  cases names with
  | nil => cases head
  | cons first rest =>
      obtain rfl : first = name := by simpa using head
      simp [addressIn, List.idxOf?_cons]

theorem addressIn_of_absent {names : List String} {name : String} (outer : Context)
    (absent : name ∉ names) :
    addressIn name (names :: outer) = (addressIn name outer).map inward := by
  simp [addressIn, List.idxOf?_eq_none_iff.mpr absent]

/-- A receiver has an address. -/
theorem Receiver.address {context : Context} (receiver : Receiver context) :
    ∃ depth, addressIn "this" context = some ⟨depth, 0⟩ := by
  induction context with
  | nil => exact receiver.elim
  | cons names outer inductionHypothesis =>
      obtain head | ⟨absent, outside⟩ := receiver
      · exact ⟨0, addressIn_of_head? outer head⟩
      · obtain ⟨depth, addressed⟩ := inductionHypothesis outside
        refine ⟨depth + 1, ?_⟩
        rw [addressIn_of_absent outer absent, addressed]
        rfl

/-- The scope of `super` is the one around that of `this`. -/
theorem Inherits.addresses {context : Context} (inherits : Inherits context) :
    ∃ depth, addressIn "super" context = some ⟨depth + 1, 0⟩ ∧
      addressIn "this" context = some ⟨depth, 0⟩ := by
  induction context with
  | nil => exact inherits.elim
  | cons names outer inductionHypothesis =>
      obtain ⟨noSuper, ⟨head, others, more, rfl⟩ | ⟨absent, outside⟩⟩ := inherits
      · refine ⟨0, ?_, addressIn_of_head? _ head⟩
        rw [addressIn_of_absent _ noSuper, addressIn_of_head? more rfl]
        rfl
      · obtain ⟨depth, superAddress, thisAddress⟩ := inductionHypothesis outside
        refine ⟨depth + 1, ?_, ?_⟩
        · rw [addressIn_of_absent outer noSuper, superAddress]
          rfl
        · rw [addressIn_of_absent outer absent, thisAddress]
          rfl

theorem within_base (context : Context) : Within .base (["this"] :: context) :=
  ⟨fun _ => .inl rfl, by simp⟩

theorem within_subclass (context : Context) :
    Within .subclass (["this"] :: ["super"] :: context) :=
  ⟨fun _ => .inl rfl, fun _ => ⟨by decide, .inl ⟨rfl, [], context, rfl⟩⟩⟩

end Binding

open Binding

/-! ## Bound trees -/

/-- The context behind a statement. -/
def Stmt.contextAfter (context : Context) (stmt : Stmt) : Context :=
  match stmt.declared? with
  | some name => declareIn name context
  | none => context

/-- The use of a variable has its address. -/
def Reference.Bound (context : Context) (reference : Reference) : Prop :=
  reference.address = addressIn reference.name.text context

/-- The context of the methods of a class. -/
def methodContext (context : Context) (superclass : Option Reference) : Context :=
  ["this"] :: if superclass.isSome then ["super"] :: context else context

mutual

/-- The names in the expression are bound. -/
def Expr.Bound (context : Context) : Expr → Prop
  | .literal _ _ => True
  | .grouping inner _ => inner.Bound context
  | .variable reference => reference.Bound context
  | .assign target value _ =>
      target.Bound context ∧ Plain target.name.text ∧ value.Bound context
  | .unary _ operand _ => operand.Bound context
  | .binary _ left right _ => left.Bound context ∧ right.Bound context
  | .logical _ left right _ => left.Bound context ∧ right.Bound context
  | .call callee arguments _ => callee.Bound context ∧ boundExprs context arguments
  | .get object _ => object.Bound context
  | .set object _ value _ => object.Bound context ∧ value.Bound context
  | .this address _ => Receiver context ∧ address = addressIn "this" context
  | .super address _ _ => Inherits context ∧ address = addressIn "super" context
  | .lambda function => boundFunction context function

/-- The names in the expressions are bound. -/
def boundExprs (context : Context) : List Expr → Prop
  | [] => True
  | expr :: rest => expr.Bound context ∧ boundExprs context rest

/-- The names in the expression, if there is one, are bound. -/
def boundOptionalExpr (context : Context) : Option Expr → Prop
  | none => True
  | some expr => expr.Bound context

/-- The names in the statement are bound. -/
def Stmt.Bound (context : Context) : Stmt → Prop
  | .expression value _ => value.Bound context
  | .print value _ => value.Bound context
  | .var name initializer _ =>
      (Plain name.text ∧ Undeclared name.text context) ∧
        boundOptionalExpr (declareIn name.text context) initializer
  | .block statements _ => boundStmts ([] :: context) statements
  | .conditional condition thenBranch elseBranch _ =>
      condition.Bound context ∧ (thenBranch.Bound context ∧ thenBranch.declared? = none) ∧
        boundBranch context elseBranch
  | .loop condition body increment _ =>
      condition.Bound context ∧ (body.Bound context ∧ body.declared? = none) ∧
        boundOptionalExpr context increment
  | .function declaration _ =>
      (Plain declaration.name.text ∧ Undeclared declaration.name.text context) ∧
        boundFunction (declareIn declaration.name.text context) declaration
  | .return value _ => boundOptionalExpr context value
  | .class name superclass methods _ =>
      (Plain name.text ∧ Undeclared name.text context) ∧
        (∀ reference ∈ superclass, reference.Bound (declareIn name.text context)) ∧
        boundFunctions (methodContext (declareIn name.text context) superclass) methods
  | .break _ => True
  | .continue _ => True

/-- The names in the branch, if there is one, are bound. -/
def boundBranch (context : Context) : Option Stmt → Prop
  | none => True
  | some branch => branch.Bound context ∧ branch.declared? = none

/-- The names in the statements are bound, each in the context behind those before. -/
def boundStmts (context : Context) : List Stmt → Prop
  | [] => True
  | stmt :: rest => stmt.Bound context ∧ boundStmts (stmt.contextAfter context) rest

/-- The names in the function are bound. Parameters and body share a scope. -/
def boundFunction (context : Context) : FunctionDeclaration → Prop
  | ⟨_, parameters, body, isGetter⟩ =>
      (parameters.map Name.text).Nodup ∧ (∀ parameter ∈ parameters, Plain parameter.text) ∧
        (isGetter = true → parameters = []) ∧
        boundStmts (parameters.map Name.text :: context) body

/-- The names in the functions are bound. -/
def boundFunctions (context : Context) : List FunctionDeclaration → Prop
  | [] => True
  | function :: rest => boundFunction context function ∧ boundFunctions context rest

end

theorem boundFunction_iff (context : Context) (function : FunctionDeclaration) :
    boundFunction context function ↔
      (function.parameters.map Name.text).Nodup ∧
        (∀ parameter ∈ function.parameters, Plain parameter.text) ∧
        (function.isGetter = true → function.parameters = []) ∧
        boundStmts (function.parameters.map Name.text :: context) function.body := by
  cases function
  exact Iff.rfl

/-! ## Accepted steps -/

namespace Binding

theorem Quiet.accepted {before after : Resolver} (quiet : Quiet before after)
    (accepted : after.errors = []) : before.errors = [] := by
  obtain ⟨more, rfl⟩ := quiet
  exact (List.append_eq_nil_iff.mp accepted).1

theorem Steady.accepted {before after : Resolver} (steady : Steady before after)
    (accepted : after.errors = []) : before.errors = [] :=
  List.prefix_nil.mp (accepted ▸ steady.errors)

theorem declare_accepted {name : Name} {before after : Resolver} {found : Unit}
    (yields : Yields (declare name) before found after) (accepted : after.errors = []) :
    Undeclared name.text (contextOf before.scopes) ∧
      contextOf after.scopes = declareIn name.text (contextOf before.scopes) := by
  simp only [declare, yields_bind, yields_get] at yields
  obtain ⟨_, _, ⟨rfl, rfl⟩, yields⟩ := yields
  split at yields
  · next top =>
      rw [yields_set] at yields
      subst yields
      simp [top, contextOf, declareIn, Undeclared]
  · next scope outer inside =>
      split at yields
      · rw [yields_report] at yields
        subst yields
        simp at accepted
      · next fresh =>
          rw [yields_set] at yields
          subst yields
          rw [inside]
          refine ⟨?_, by simp [contextOf, declareIn, Scope.declare]⟩
          intro names member
          obtain rfl : scope.map Local.name = names := by simpa [contextOf] using member
          simpa [Scope.slot?] using fresh

theorem define_context {name : Name} {before after : Resolver} {found : Unit}
    (yields : Yields (define name) before found after) :
    contextOf after.scopes = contextOf before.scopes := by
  simp only [define, yields_modify] at yields
  split at yields
  · next top =>
      subst yields
      rfl
  · next scope outer inside =>
      subst yields
      have names : (scope.define name.text).map Local.name = scope.map Local.name := by
        simp only [Scope.define, List.map_map]
        apply List.map_congr_left
        intro entry _
        simp only [Function.comp]
        split <;> rfl
      simp [inside, contextOf, names]

theorem declareParameters_accepted {parameters : List Name} {before after : Resolver}
    {found : Unit} {names : List String} {outer : Context}
    (yields : Yields (declareParameters parameters) before found after)
    (accepted : after.errors = []) (context : contextOf before.scopes = names :: outer)
    (distinct : names.Nodup) :
    (names ++ parameters.map Name.text).Nodup ∧
      contextOf after.scopes = (names ++ parameters.map Name.text) :: outer := by
  induction parameters generalizing before names with
  | nil =>
      obtain ⟨_, rfl⟩ := yields_pure.mp yields
      simpa using ⟨distinct, context⟩
  | cons parameter rest inductionHypothesis =>
      simp only [declareParameters, yields_bind] at yields
      obtain ⟨_, declared, declares, _, defined, defines, others⟩ := yields
      have acceptedDefine := (steady_declareParameters rest others).accepted accepted
      have acceptedDeclare := (steady_define parameter defines).accepted acceptedDefine
      obtain ⟨undeclared, opened⟩ := declare_accepted declares acceptedDeclare
      rw [context] at undeclared opened
      have absent : parameter.text ∉ names := undeclared names rfl
      have extended : contextOf defined.scopes = (names ++ [parameter.text]) :: outer :=
        (define_context defines).trans opened
      have distinctNames : (names ++ [parameter.text]).Nodup := by
        refine List.nodup_append.mpr ⟨distinct, List.pairwise_singleton _ _, ?_⟩
        intro name member other single
        rw [List.mem_singleton.mp single]
        exact fun same => absent (same ▸ member)
      have others := inductionHypothesis others extended distinctNames
      simpa using others

theorem addressIn_of_lookUp {name : String} {before after : Resolver} {found : Option Address}
    (yields : Yields (lookUp name none) before found after) :
    found = addressIn name (contextOf before.scopes) := by
  obtain ⟨rfl, _⟩ := yields_lookUp.mp yields
  rw [Option.or_none, address?_eq_addressIn]

theorem bound_readVariable {reference found : Reference} {before after : Resolver}
    (yields : Yields (readVariable reference) before found after)
    (unbound : reference.Unbound) : found.Bound (contextOf before.scopes) := by
  simp only [readVariable, unbound.1, yields_bind, yields_get, yields_reportIf,
    yields_pure] at yields
  obtain ⟨_, _, ⟨rfl, rfl⟩, _, _, rfl, address, _, lookedUp, rfl, _⟩ := yields
  have found := addressIn_of_lookUp lookedUp
  exact found

theorem bound_readThis {address found : Option Address} {span : Span} {before after : Resolver}
    (yields : Yields (readThis address span) before found after) (accepted : after.errors = [])
    (unbound : address = none) (within : Within before.classKind (contextOf before.scopes)) :
    Receiver (contextOf before.scopes) ∧ found = addressIn "this" (contextOf before.scopes) := by
  subst unbound
  simp only [readThis, yields_bind, yields_get] at yields
  obtain ⟨_, _, ⟨rfl, rfl⟩, yields⟩ := yields
  split at yields
  · simp only [yields_bind, yields_report, yields_pure] at yields
    obtain ⟨_, _, rfl, _, rfl⟩ := yields
    simp at accepted
  · next inClass => exact ⟨within.receiver inClass, addressIn_of_lookUp yields⟩

theorem bound_readSuper {address found : Option Address} {span : Span} {before after : Resolver}
    (yields : Yields (readSuper address span) before found after) (accepted : after.errors = [])
    (unbound : address = none) (within : Within before.classKind (contextOf before.scopes)) :
    Inherits (contextOf before.scopes) ∧ found = addressIn "super" (contextOf before.scopes) := by
  subst unbound
  simp only [readSuper, yields_bind, yields_get] at yields
  obtain ⟨_, _, ⟨rfl, rfl⟩, yields⟩ := yields
  split at yields
  · simp only [yields_bind, yields_report, yields_lookUp] at yields
    obtain ⟨_, _, rfl, _, rfl⟩ := yields
    simp at accepted
  · simp only [yields_bind, yields_report, yields_lookUp] at yields
    obtain ⟨_, _, rfl, _, rfl⟩ := yields
    simp at accepted
  · next inSubclass => exact ⟨within.inherits inSubclass, addressIn_of_lookUp yields⟩

/-! ## Accepted trees -/

theorem plain_of_declared {stmt : Stmt} (unbound : stmt.Unbound) {name : String}
    (declared : stmt.declared? = some name) : Plain name := by
  cases stmt with
  | var found _ _ =>
      obtain rfl := Option.some.inj declared
      exact unbound.1
  | function found _ =>
      obtain rfl := Option.some.inj declared
      exact unbound.1
  | «class» found _ _ _ =>
      obtain rfl := Option.some.inj declared
      exact unbound.1
  | _ => cases declared

theorem Within.contextAfter {kind : ClassKind} {context : Context} (within : Within kind context)
    {stmt found : Stmt} (unbound : stmt.Unbound) (same : found.declared? = stmt.declared?) :
    Within kind (found.contextAfter context) := by
  unfold Stmt.contextAfter
  split
  · next name declared =>
      rw [same] at declared
      exact within.declareIn (plain_of_declared unbound declared)
  · exact within

/-- A statement without error is bound where it stands, and the scopes behind it are
those of the context behind it. -/
structure BoundStmt (stmt found : Stmt) (before after : Resolver) : Prop where
  bound : found.Bound (contextOf before.scopes)
  behind : contextOf after.scopes = found.contextAfter (contextOf before.scopes)
  declared : found.declared? = stmt.declared?

theorem name_resolveFunction {kind : FunctionKind} {function found : FunctionDeclaration}
    {before after : Resolver} (yields : Yields (resolveFunction kind function) before found after) :
    found.name = function.name := by
  obtain ⟨name, parameters, body, isGetter⟩ := function
  simp only [resolveFunction, yields_bind, yields_get, yields_modify, yields_openScope,
    yields_closeScope, yields_pure] at yields
  obtain ⟨_, _, _, _, _, _, _, _, _, _, _, _, _, _, _, _, _, _, _, _, _, rfl, _⟩ := yields
  rfl

/-- A name that is declared and ready is the last one of its scope. -/
theorem announce_accepted {name : Name} {before after : Resolver} {found : Unit}
    (announces : Yields (do declare name; define name) before found after)
    (accepted : after.errors = []) :
    Undeclared name.text (contextOf before.scopes) ∧
      contextOf after.scopes = declareIn name.text (contextOf before.scopes) := by
  obtain ⟨_, _, declares, defines⟩ := yields_bind.mp announces
  have acceptedDeclare := (steady_define name defines).accepted accepted
  obtain ⟨undeclared, opened⟩ := declare_accepted declares acceptedDeclare
  exact ⟨undeclared, (define_context defines).trans opened⟩

/-- The methods of a class are bound behind its superclass and itself. -/
theorem boundClass_resolve {name : Name} {superclass : Option Reference}
    {methods : List FunctionDeclaration} {span : Span} {before after : Resolver} {found : Stmt}
    (boundMethods : ∀ ⦃before after : Resolver⦄ ⦃found : List FunctionDeclaration⦄,
      Yields (resolveMethods methods) before found after → after.errors = [] →
      unboundFunctions methods → Within before.classKind (contextOf before.scopes) →
      boundFunctions (contextOf before.scopes) found)
    (yields : Yields (Stmt.resolve (.class name superclass methods span)) before found after)
    (accepted : after.errors = [])
    (unbound : (Stmt.class name superclass methods span).Unbound) :
    BoundStmt (.class name superclass methods span) found before after := by
  obtain ⟨boundSuperclass, _, rfl, ⟨announced, inherited, done, announces, inherits, binds, rfl⟩⟩ :=
    yields_class yields
  obtain ⟨plain, unboundSuperclass, unboundMethods⟩ := unbound
  obtain ⟨more, rfl⟩ := quiet_resolveMethods methods binds
  have acceptedInherited := (List.append_eq_nil_iff.mp accepted).1
  have bound := boundMethods binds accepted unboundMethods
  obtain ⟨rfl, rfl, rfl⟩ | ⟨reference, read, _, others, rfl, rfl, reads, rfl⟩ :=
    readSuperclass_spec inherits
  · obtain ⟨undeclared, opened⟩ := announce_accepted announces acceptedInherited
    have base : inherited.classKind = .base := by
      have steady := (steady_declare name).bind (fun _ => steady_define name) announces
      exact steady.classKind
    have boundHere := bound (by
      change Within inherited.classKind (["this"] :: contextOf inherited.scopes)
      rw [base]
      exact within_base _)
    change boundFunctions (["this"] :: contextOf inherited.scopes) _ at boundHere
    rw [opened] at boundHere
    exact ⟨⟨⟨plain, undeclared⟩, by simp, boundHere⟩, opened, rfl⟩
  · have acceptedAnnounced := (List.append_eq_nil_iff.mp acceptedInherited).1
    obtain ⟨undeclared, opened⟩ := announce_accepted announces acceptedAnnounced
    have boundHere := bound (within_subclass (contextOf announced.scopes))
    change boundFunctions (["this"] :: ["super"] :: contextOf announced.scopes) _ at boundHere
    have boundReference := bound_readVariable reads (unboundSuperclass reference rfl)
    change read.Bound (contextOf announced.scopes) at boundReference
    rw [opened] at boundHere boundReference
    exact ⟨⟨⟨plain, undeclared⟩, by simpa using boundReference, boundHere⟩, opened, rfl⟩

mutual

theorem bound_resolve : (expr : Expr) → ∀ ⦃before after : Resolver⦄ ⦃found : Expr⦄,
    Yields expr.resolve before found after → after.errors = [] → expr.Unbound →
    Within before.classKind (contextOf before.scopes) → found.Bound (contextOf before.scopes)
  | .literal _ _ => by
      intro before after found yields _ _ _
      obtain ⟨rfl, _⟩ := yields_pure.mp yields
      trivial
  | .grouping inner _ => by
      intro before after found yields accepted unbound within
      simp only [Expr.resolve, yields_bind, yields_pure] at yields
      obtain ⟨_, _, yieldsInner, rfl, rfl⟩ := yields
      have bound := bound_resolve inner yieldsInner accepted unbound within
      exact bound
  | .variable reference => by
      intro before after found yields _ unbound _
      simp only [Expr.resolve, yields_bind, yields_pure] at yields
      obtain ⟨_, _, reads, rfl, rfl⟩ := yields
      exact bound_readVariable reads unbound
  | .assign target value _ => by
      intro before after found yields accepted unbound within
      obtain ⟨⟨absent, plain⟩, unboundValue⟩ := unbound
      simp only [Expr.resolve, absent, yields_bind, yields_pure] at yields
      obtain ⟨_, middle, yieldsValue, _, _, looksUp, rfl, rfl⟩ := yields
      have acceptedValue := (quiet_lookUp _ _ looksUp).accepted accepted
      obtain ⟨_, rfl⟩ := quiet_resolve value yieldsValue
      have address := addressIn_of_lookUp looksUp
      exact ⟨address, plain, bound_resolve value yieldsValue acceptedValue unboundValue within⟩
  | .unary _ operand _ => by
      intro before after found yields accepted unbound within
      simp only [Expr.resolve, yields_bind, yields_pure] at yields
      obtain ⟨_, _, yieldsOperand, rfl, rfl⟩ := yields
      have bound := bound_resolve operand yieldsOperand accepted unbound within
      exact bound
  | .binary _ left right _ => by
      intro before after found yields accepted unbound within
      simp only [Expr.resolve, yields_bind, yields_pure] at yields
      obtain ⟨_, middle, yieldsLeft, _, _, yieldsRight, rfl, rfl⟩ := yields
      have acceptedLeft := (quiet_resolve right yieldsRight).accepted accepted
      obtain ⟨_, rfl⟩ := quiet_resolve left yieldsLeft
      have boundLeft := bound_resolve left yieldsLeft acceptedLeft unbound.1 within
      have boundRight := bound_resolve right yieldsRight accepted unbound.2 within
      exact ⟨boundLeft, boundRight⟩
  | .logical _ left right _ => by
      intro before after found yields accepted unbound within
      simp only [Expr.resolve, yields_bind, yields_pure] at yields
      obtain ⟨_, middle, yieldsLeft, _, _, yieldsRight, rfl, rfl⟩ := yields
      have acceptedLeft := (quiet_resolve right yieldsRight).accepted accepted
      obtain ⟨_, rfl⟩ := quiet_resolve left yieldsLeft
      have boundLeft := bound_resolve left yieldsLeft acceptedLeft unbound.1 within
      have boundRight := bound_resolve right yieldsRight accepted unbound.2 within
      exact ⟨boundLeft, boundRight⟩
  | .call callee arguments _ => by
      intro before after found yields accepted unbound within
      simp only [Expr.resolve, yields_bind, yields_pure] at yields
      obtain ⟨_, middle, yieldsCallee, _, _, yieldsArguments, rfl, rfl⟩ := yields
      have acceptedCallee := (quiet_resolveExprs arguments yieldsArguments).accepted accepted
      obtain ⟨_, rfl⟩ := quiet_resolve callee yieldsCallee
      have boundCallee := bound_resolve callee yieldsCallee acceptedCallee unbound.1 within
      have boundArguments := bound_resolveExprs arguments yieldsArguments accepted unbound.2 within
      exact ⟨boundCallee, boundArguments⟩
  | .get object _ => by
      intro before after found yields accepted unbound within
      simp only [Expr.resolve, yields_bind, yields_pure] at yields
      obtain ⟨_, _, yieldsObject, rfl, rfl⟩ := yields
      have bound := bound_resolve object yieldsObject accepted unbound within
      exact bound
  | .set object _ value _ => by
      intro before after found yields accepted unbound within
      simp only [Expr.resolve, yields_bind, yields_pure] at yields
      obtain ⟨_, middle, yieldsValue, _, _, yieldsObject, rfl, rfl⟩ := yields
      have acceptedValue := (quiet_resolve object yieldsObject).accepted accepted
      obtain ⟨_, rfl⟩ := quiet_resolve value yieldsValue
      have boundObject := bound_resolve object yieldsObject accepted unbound.1 within
      have boundValue := bound_resolve value yieldsValue acceptedValue unbound.2 within
      exact ⟨boundObject, boundValue⟩
  | .this _ _ => by
      intro before after found yields accepted unbound within
      simp only [Expr.resolve, yields_bind, yields_pure] at yields
      obtain ⟨_, _, reads, rfl, rfl⟩ := yields
      exact bound_readThis reads accepted unbound within
  | .super _ _ _ => by
      intro before after found yields accepted unbound within
      simp only [Expr.resolve, yields_bind, yields_pure] at yields
      obtain ⟨_, _, reads, rfl, rfl⟩ := yields
      exact bound_readSuper reads accepted unbound within
  | .lambda function => by
      intro before after found yields accepted unbound within
      simp only [Expr.resolve, yields_bind, yields_pure] at yields
      obtain ⟨_, _, yieldsFunction, rfl, rfl⟩ := yields
      exact bound_resolveFunction _ function yieldsFunction accepted unbound within

theorem bound_resolveExprs : (exprs : List Expr) →
    ∀ ⦃before after : Resolver⦄ ⦃found : List Expr⦄,
    Yields (resolveExprs exprs) before found after → after.errors = [] → unboundExprs exprs →
    Within before.classKind (contextOf before.scopes) →
    boundExprs (contextOf before.scopes) found
  | [] => by
      intro before after found yields _ _ _
      obtain ⟨rfl, _⟩ := yields_pure.mp yields
      trivial
  | expr :: rest => by
      intro before after found yields accepted unbound within
      simp only [resolveExprs, yields_bind, yields_pure] at yields
      obtain ⟨_, middle, yieldsFirst, _, _, yieldsRest, rfl, rfl⟩ := yields
      have acceptedFirst := (quiet_resolveExprs rest yieldsRest).accepted accepted
      obtain ⟨_, rfl⟩ := quiet_resolve expr yieldsFirst
      have boundFirst := bound_resolve expr yieldsFirst acceptedFirst unbound.1 within
      have boundRest := bound_resolveExprs rest yieldsRest accepted unbound.2 within
      exact ⟨boundFirst, boundRest⟩

theorem bound_resolveOptionalExpr : (expr : Option Expr) →
    ∀ ⦃before after : Resolver⦄ ⦃found : Option Expr⦄,
    Yields (resolveOptionalExpr expr) before found after → after.errors = [] →
    unboundOptionalExpr expr → Within before.classKind (contextOf before.scopes) →
    boundOptionalExpr (contextOf before.scopes) found
  | none => by
      intro before after found yields _ _ _
      obtain ⟨rfl, _⟩ := yields_pure.mp yields
      trivial
  | some expr => by
      intro before after found yields accepted unbound within
      simp only [resolveOptionalExpr, yields_bind, yields_pure] at yields
      obtain ⟨_, _, yieldsExpr, rfl, rfl⟩ := yields
      exact bound_resolve expr yieldsExpr accepted unbound within

theorem boundStmt_resolve : (stmt : Stmt) → ∀ ⦃before after : Resolver⦄ ⦃found : Stmt⦄,
    Yields stmt.resolve before found after → after.errors = [] → stmt.Unbound →
    Within before.classKind (contextOf before.scopes) → BoundStmt stmt found before after
  | .expression value _ => by
      intro before after found yields accepted unbound within
      simp only [Stmt.resolve, yields_bind, yields_pure] at yields
      obtain ⟨_, _, yieldsValue, rfl, rfl⟩ := yields
      have bound := bound_resolve value yieldsValue accepted unbound within
      obtain ⟨_, rfl⟩ := quiet_resolve value yieldsValue
      exact ⟨bound, rfl, rfl⟩
  | .print value _ => by
      intro before after found yields accepted unbound within
      simp only [Stmt.resolve, yields_bind, yields_pure] at yields
      obtain ⟨_, _, yieldsValue, rfl, rfl⟩ := yields
      have bound := bound_resolve value yieldsValue accepted unbound within
      obtain ⟨_, rfl⟩ := quiet_resolve value yieldsValue
      exact ⟨bound, rfl, rfl⟩
  | .var name initializer _ => by
      intro before after found yields accepted unbound within
      simp only [Stmt.resolve, yields_bind, yields_pure] at yields
      obtain ⟨_, declared, declares, bound, _, yieldsInitializer, _, _, defines, rfl, rfl⟩ := yields
      have acceptedDefine := (steady_define name defines).accepted accepted
      have quiet := quiet_resolveOptionalExpr initializer yieldsInitializer
      have steady := steady_declare name declares
      obtain ⟨undeclared, opened⟩ := declare_accepted declares (quiet.accepted acceptedDefine)
      have boundInitializer := bound_resolveOptionalExpr initializer yieldsInitializer
        acceptedDefine unbound.2 (by
          rw [steady.classKind, opened]
          exact within.declareIn unbound.1)
      rw [opened] at boundInitializer
      refine ⟨⟨⟨unbound.1, undeclared⟩, boundInitializer⟩, ?_, rfl⟩
      rw [define_context defines]
      obtain ⟨_, rfl⟩ := quiet
      exact opened
  | .block statements _ => by
      intro before after found yields accepted unbound within
      simp only [Stmt.resolve, yields_bind, yields_openScope, yields_closeScope,
        yields_pure] at yields
      obtain ⟨_, _, rfl, _, inside, yieldsBody, _, _, rfl, rfl, rfl⟩ := yields
      have noNames : ∀ name ∈ ([] : List String), Plain name := by simp
      have bound := bound_resolveStmts statements yieldsBody accepted unbound
        (within.inside noNames)
      have closed := (steady_resolveStmts statements yieldsBody).outer
      exact ⟨bound, congrArg contextOf closed, rfl⟩
  | .conditional condition thenBranch elseBranch _ => by
      intro before after found yields accepted unbound within
      simp only [Stmt.resolve, yields_bind, yields_pure] at yields
      obtain ⟨_, _, yieldsCondition, _, chosen, yieldsThen, _, _, yieldsElse, rfl, rfl⟩ := yields
      obtain ⟨unboundCondition, ⟨unboundThen, notDeclaration⟩, unboundElse⟩ := unbound
      have acceptedThen := (steady_resolveOptionalStmt elseBranch yieldsElse).accepted accepted
      have acceptedCondition := (steady_resolve thenBranch yieldsThen).accepted acceptedThen
      have boundCondition := bound_resolve condition yieldsCondition acceptedCondition
        unboundCondition within
      obtain ⟨_, rfl⟩ := quiet_resolve condition yieldsCondition
      have resultThen := boundStmt_resolve thenBranch yieldsThen acceptedThen unboundThen within
      have noName := resultThen.declared.trans notDeclaration
      have steady := steady_resolve thenBranch yieldsThen
      have same : contextOf chosen.scopes = contextOf before.scopes := by
        rw [resultThen.behind, Stmt.contextAfter, noName]
      obtain ⟨boundElse, closed⟩ := boundBranch_resolve elseBranch yieldsElse accepted unboundElse
        (by rw [steady.classKind, same]; exact within)
      rw [same] at boundElse closed
      exact ⟨⟨boundCondition, ⟨resultThen.bound, noName⟩, boundElse⟩, closed, rfl⟩
  | .loop condition body increment _ => by
      intro before after found yields accepted unbound within
      simp only [Stmt.resolve, yields_bind, yields_modify, yields_pure] at yields
      obtain ⟨_, _, yieldsCondition, _, _, rfl, _, reached, yieldsBody, _, _, rfl, _, _,
        yieldsIncrement, rfl, rfl⟩ := yields
      obtain ⟨unboundCondition, ⟨unboundBody, notDeclaration⟩, unboundIncrement⟩ := unbound
      have quietIncrement := quiet_resolveOptionalExpr increment yieldsIncrement
      have acceptedBody : reached.errors = [] := quietIncrement.accepted accepted
      have acceptedCondition := (steady_resolve body yieldsBody).accepted acceptedBody
      have boundCondition := bound_resolve condition yieldsCondition acceptedCondition
        unboundCondition within
      obtain ⟨_, rfl⟩ := quiet_resolve condition yieldsCondition
      have resultBody := boundStmt_resolve body yieldsBody acceptedBody unboundBody within
      have noName := resultBody.declared.trans notDeclaration
      have steady := steady_resolve body yieldsBody
      have same : contextOf reached.scopes = contextOf before.scopes := by
        rw [resultBody.behind, Stmt.contextAfter, noName]
      have boundIncrement := bound_resolveOptionalExpr increment yieldsIncrement accepted
        unboundIncrement (by
          change Within reached.classKind (contextOf reached.scopes)
          rw [steady.classKind, same]
          exact within)
      change boundOptionalExpr (contextOf reached.scopes) _ at boundIncrement
      rw [same] at boundIncrement
      obtain ⟨_, rfl⟩ := quietIncrement
      exact ⟨⟨boundCondition, ⟨resultBody.bound, noName⟩, boundIncrement⟩, same, rfl⟩
  | .function declaration _ => by
      intro before after found yields accepted unbound within
      simp only [Stmt.resolve, yields_bind, yields_pure] at yields
      obtain ⟨_, _, declares, _, defined, defines, bound, _, yieldsFunction, rfl, rfl⟩ := yields
      have quiet := quiet_resolveFunction _ declaration yieldsFunction
      have announces : Yields (do declare declaration.name; define declaration.name) before ()
          defined := yields_bind.mpr ⟨_, _, declares, defines⟩
      obtain ⟨undeclared, context⟩ := announce_accepted announces (quiet.accepted accepted)
      have steady := (steady_declare declaration.name declares).trans
        (steady_define declaration.name defines)
      have boundFunction := bound_resolveFunction _ declaration yieldsFunction accepted unbound.2
        (by rw [steady.classKind, context]; exact within.declareIn unbound.1)
      rw [context] at boundFunction
      have sameName := name_resolveFunction yieldsFunction
      rw [← sameName] at undeclared boundFunction
      refine ⟨⟨⟨sameName ▸ unbound.1, undeclared⟩, boundFunction⟩, ?_, ?_⟩
      · obtain ⟨_, rfl⟩ := quiet
        rw [context, ← sameName]
        rfl
      · exact congrArg (fun name : Name => some name.text) sameName
  | .return value _ => by
      intro before after found yields accepted unbound within
      simp only [Stmt.resolve, yields_bind, yields_pure] at yields
      obtain ⟨_, _, checks, _, _, yieldsValue, rfl, rfl⟩ := yields
      obtain ⟨_, rfl⟩ := quiet_checkReturn _ _ checks
      have bound := bound_resolveOptionalExpr value yieldsValue accepted unbound within
      obtain ⟨_, rfl⟩ := quiet_resolveOptionalExpr value yieldsValue
      exact ⟨bound, rfl, rfl⟩
  | .class _ _ methods _ =>
      fun _ _ _ yields accepted unbound _ =>
        boundClass_resolve (bound_resolveMethods methods) yields accepted unbound
  | .break _ => by
      intro before after found yields accepted unbound within
      simp only [Stmt.resolve, yields_bind, yields_pure] at yields
      obtain ⟨_, _, checks, rfl, rfl⟩ := yields
      obtain ⟨_, rfl⟩ := quiet_checkJump _ _ _ checks
      exact ⟨trivial, rfl, rfl⟩
  | .continue _ => by
      intro before after found yields accepted unbound within
      simp only [Stmt.resolve, yields_bind, yields_pure] at yields
      obtain ⟨_, _, checks, rfl, rfl⟩ := yields
      obtain ⟨_, rfl⟩ := quiet_checkJump _ _ _ checks
      exact ⟨trivial, rfl, rfl⟩

theorem boundBranch_resolve : (stmt : Option Stmt) →
    ∀ ⦃before after : Resolver⦄ ⦃found : Option Stmt⦄,
    Yields (resolveOptionalStmt stmt) before found after → after.errors = [] →
    unboundBranch stmt → Within before.classKind (contextOf before.scopes) →
    boundBranch (contextOf before.scopes) found ∧
      contextOf after.scopes = contextOf before.scopes
  | none => by
      intro before after found yields _ _ _
      obtain ⟨rfl, rfl⟩ := yields_pure.mp yields
      exact ⟨trivial, rfl⟩
  | some stmt => by
      intro before after found yields accepted unbound within
      simp only [resolveOptionalStmt, yields_bind, yields_pure] at yields
      obtain ⟨_, _, yieldsStmt, rfl, rfl⟩ := yields
      have result := boundStmt_resolve stmt yieldsStmt accepted unbound.1 within
      have notDeclaration := result.declared.trans unbound.2
      refine ⟨⟨result.bound, notDeclaration⟩, ?_⟩
      rw [result.behind, Stmt.contextAfter, notDeclaration]

theorem bound_resolveStmts : (stmts : List Stmt) →
    ∀ ⦃before after : Resolver⦄ ⦃found : List Stmt⦄,
    Yields (resolveStmts stmts) before found after → after.errors = [] → unboundStmts stmts →
    Within before.classKind (contextOf before.scopes) →
    boundStmts (contextOf before.scopes) found
  | [] => by
      intro before after found yields _ _ _
      obtain ⟨rfl, _⟩ := yields_pure.mp yields
      trivial
  | stmt :: rest => by
      intro before after found yields accepted unbound within
      simp only [resolveStmts, yields_bind, yields_pure] at yields
      obtain ⟨_, middle, yieldsFirst, _, _, yieldsRest, rfl, rfl⟩ := yields
      have acceptedFirst := (steady_resolveStmts rest yieldsRest).accepted accepted
      have first := boundStmt_resolve stmt yieldsFirst acceptedFirst unbound.1 within
      have steady := steady_resolve stmt yieldsFirst
      have others := bound_resolveStmts rest yieldsRest accepted unbound.2 (by
        rw [steady.classKind, first.behind]
        exact within.contextAfter unbound.1 first.declared)
      rw [first.behind] at others
      exact ⟨first.bound, others⟩

theorem bound_resolveFunction (kind : FunctionKind) : (function : FunctionDeclaration) →
    ∀ ⦃before after : Resolver⦄ ⦃found : FunctionDeclaration⦄,
    Yields (resolveFunction kind function) before found after → after.errors = [] →
    unboundFunction function → Within before.classKind (contextOf before.scopes) →
    boundFunction (contextOf before.scopes) found
  | ⟨name, parameters, body, isGetter⟩ => by
      intro before after found yields accepted unbound within
      obtain ⟨plain, getter, unboundBody⟩ := unbound
      simp only [resolveFunction, yields_bind, yields_get, yields_modify, yields_openScope,
        yields_closeScope, yields_pure] at yields
      obtain ⟨_, _, ⟨rfl, rfl⟩, _, _, rfl, _, _, rfl, _, declared, declares, _, _, yieldsBody, _, _,
        rfl, _, _, rfl, rfl, rfl⟩ := yields
      have acceptedNames := (steady_resolveStmts body yieldsBody).accepted accepted
      obtain ⟨distinct, context⟩ := declareParameters_accepted declares acceptedNames rfl
        List.nodup_nil
      have steady := steady_declareParameters parameters declares
      have plainNames : ∀ name ∈ parameters.map Name.text, Plain name := by
        simpa using plain
      have boundBody := bound_resolveStmts body yieldsBody accepted unboundBody (by
        rw [steady.classKind, context]
        exact within.inside plainNames)
      rw [context] at boundBody
      exact ⟨distinct, plain, getter, boundBody⟩

theorem bound_resolveMethods : (methods : List FunctionDeclaration) →
    ∀ ⦃before after : Resolver⦄ ⦃found : List FunctionDeclaration⦄,
    Yields (resolveMethods methods) before found after → after.errors = [] →
    unboundFunctions methods → Within before.classKind (contextOf before.scopes) →
    boundFunctions (contextOf before.scopes) found
  | [] => by
      intro before after found yields _ _ _
      obtain ⟨rfl, _⟩ := yields_pure.mp yields
      trivial
  | method :: rest => by
      intro before after found yields accepted unbound within
      simp only [resolveMethods, yields_bind, yields_pure] at yields
      obtain ⟨_, middle, yieldsFirst, _, _, yieldsRest, rfl, rfl⟩ := yields
      have acceptedFirst := (quiet_resolveMethods rest yieldsRest).accepted accepted
      obtain ⟨_, rfl⟩ := quiet_resolveFunction _ method yieldsFirst
      have boundFirst := bound_resolveFunction _ method yieldsFirst acceptedFirst unbound.1 within
      have boundRest := bound_resolveMethods rest yieldsRest accepted unbound.2 within
      exact ⟨boundFirst, boundRest⟩

end

/-- A program without errors is bound at top level. -/
theorem AtTop.bound {resolver : Resolver} (atTop : AtTop resolver) {program : Program}
    (unbound : unboundStmts program.statements)
    (accepted : (resolver.resolve program).errors = []) :
    boundStmts [] (resolver.resolve program).program.statements := by
  obtain ⟨after, yields, errors, _⟩ := yields_resolve resolver program
  have outside : Within resolver.classKind (contextOf resolver.scopes) := by
    rw [atTop.classKind]
    exact ⟨by simp, by simp⟩
  have bound := bound_resolveStmts program.statements yields (errors ▸ accepted) unbound outside
  rw [atTop.scopes] at bound
  exact bound

end Binding

end Lox
