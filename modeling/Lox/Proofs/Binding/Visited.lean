import Lox.Binding.Resolver
import Lox.Proofs.Places.Order

/-!
Contract: the order in which binding errors are found.

The pass visits the parts of a tree as they stand in the source, with two exceptions: the value
of a property is bound before the object, and the body of a loop before its increment. So errors
are found in order, unless there are some on both sides of such a crossing.

Main statement: `Resolver.errors_inOrder_iff`.

Owns: the places of a tree where a rule about names may be broken, in the order of the source; the
crossings; the order of binding errors. Does not own: which rules are broken.
-/

set_option autoImplicit false

namespace Lox

/-! ## Places -/

/-- The place of a superclass. -/
def superclassPlaces : Option Reference → List Span
  | none => []
  | some superclass => [superclass.name.span]

mutual

/-- The places of an expression where a rule about names may be broken, in the order in which
they stand in the source. -/
def Expr.places : Expr → List Span
  | .literal _ _ => []
  | .grouping inner _ => inner.places
  | .variable reference => [reference.name.span]
  | .assign _ value _ => value.places
  | .unary _ operand _ => operand.places
  | .binary _ left right _ => left.places ++ right.places
  | .logical _ left right _ => left.places ++ right.places
  | .call callee arguments _ => callee.places ++ placesOfExprs arguments
  | .get object _ => object.places
  | .set object _ value _ => object.places ++ value.places
  | .this _ span => [span]
  | .super _ _ span => [span]
  | .lambda function => placesOfFunction function

/-- The places of expressions. -/
def placesOfExprs : List Expr → List Span
  | [] => []
  | expr :: rest => expr.places ++ placesOfExprs rest

/-- The places of an optional expression. -/
def placesOfOptionalExpr : Option Expr → List Span
  | none => []
  | some expr => expr.places

/-- The places of a statement. The increment of a loop stands in front of the body. -/
def Stmt.places : Stmt → List Span
  | .expression value _ => value.places
  | .print value _ => value.places
  | .var name initializer _ => name.span :: placesOfOptionalExpr initializer
  | .block statements _ => placesOfStmts statements
  | .conditional condition thenBranch elseBranch _ =>
      condition.places ++ (thenBranch.places ++ placesOfOptionalStmt elseBranch)
  | .loop condition body increment _ =>
      condition.places ++ (placesOfOptionalExpr increment ++ body.places)
  | .function declaration _ => declaration.name.span :: placesOfFunction declaration
  | .return value span => span :: placesOfOptionalExpr value
  | .class name superclass methods _ =>
      name.span :: (superclassPlaces superclass ++ placesOfMethods methods)
  | .break span => [span]
  | .continue span => [span]

/-- The places of an optional statement. -/
def placesOfOptionalStmt : Option Stmt → List Span
  | none => []
  | some stmt => stmt.places

/-- The places of statements. -/
def placesOfStmts : List Stmt → List Span
  | [] => []
  | stmt :: rest => stmt.places ++ placesOfStmts rest

/-- The places of a function: its parameters and its body. -/
def placesOfFunction : FunctionDeclaration → List Span
  | ⟨_, parameters, body, _⟩ => parameters.map Name.span ++ placesOfStmts body

/-- The places of methods. -/
def placesOfMethods : List FunctionDeclaration → List Span
  | [] => []
  | method :: rest => placesOfFunction method ++ placesOfMethods rest

end

/-! ## Crossings -/

/-- The places of two parts of a tree, of which the second is bound first. -/
structure Crossing where
  front : List Span
  back : List Span

mutual

/-- The crossings of an expression: objects and values of properties. -/
def Expr.crossings : Expr → List Crossing
  | .literal _ _ => []
  | .grouping inner _ => inner.crossings
  | .variable _ => []
  | .assign _ value _ => value.crossings
  | .unary _ operand _ => operand.crossings
  | .binary _ left right _ => left.crossings ++ right.crossings
  | .logical _ left right _ => left.crossings ++ right.crossings
  | .call callee arguments _ => callee.crossings ++ crossingsOfExprs arguments
  | .get object _ => object.crossings
  | .set object _ value _ =>
      ⟨object.places, value.places⟩ :: (value.crossings ++ object.crossings)
  | .this _ _ => []
  | .super _ _ _ => []
  | .lambda function => crossingsOfFunction function

/-- The crossings of expressions. -/
def crossingsOfExprs : List Expr → List Crossing
  | [] => []
  | expr :: rest => expr.crossings ++ crossingsOfExprs rest

/-- The crossings of an optional expression. -/
def crossingsOfOptionalExpr : Option Expr → List Crossing
  | none => []
  | some expr => expr.crossings

/-- The crossings of a statement: increments and bodies of loops, and those of the parts. -/
def Stmt.crossings : Stmt → List Crossing
  | .expression value _ => value.crossings
  | .print value _ => value.crossings
  | .var _ initializer _ => crossingsOfOptionalExpr initializer
  | .block statements _ => crossingsOfStmts statements
  | .conditional condition thenBranch elseBranch _ =>
      condition.crossings ++ (thenBranch.crossings ++ crossingsOfOptionalStmt elseBranch)
  | .loop condition body increment _ =>
      condition.crossings ++ (⟨placesOfOptionalExpr increment, body.places⟩ ::
        (body.crossings ++ crossingsOfOptionalExpr increment))
  | .function declaration _ => crossingsOfFunction declaration
  | .return value _ => crossingsOfOptionalExpr value
  | .class _ _ methods _ => crossingsOfMethods methods
  | .break _ => []
  | .continue _ => []

/-- The crossings of an optional statement. -/
def crossingsOfOptionalStmt : Option Stmt → List Crossing
  | none => []
  | some stmt => stmt.crossings

/-- The crossings of statements. -/
def crossingsOfStmts : List Stmt → List Crossing
  | [] => []
  | stmt :: rest => stmt.crossings ++ crossingsOfStmts rest

/-- The crossings of a function. -/
def crossingsOfFunction : FunctionDeclaration → List Crossing
  | ⟨_, _, body, _⟩ => crossingsOfStmts body

/-- The crossings of methods. -/
def crossingsOfMethods : List FunctionDeclaration → List Crossing
  | [] => []
  | method :: rest => crossingsOfFunction method ++ crossingsOfMethods rest

end

/-- An error stands at one of these places. -/
def Strikes (errors places : List Span) : Prop := ∃ span ∈ errors, span ∈ places

instance (errors places : List Span) : Decidable (Strikes errors places) := by
  unfold Strikes
  infer_instance

/-- There are errors on both sides of the crossing. -/
def Crossing.Struck (crossing : Crossing) (errors : List Span) : Prop :=
  Strikes errors crossing.front ∧ Strikes errors crossing.back

instance (crossing : Crossing) (errors : List Span) : Decidable (crossing.Struck errors) := by
  unfold Crossing.Struck
  infer_instance

/-! ## Errors of one part -/

theorem strikes_append {first second places : List Span} :
    Strikes (first ++ second) places ↔ Strikes first places ∨ Strikes second places := by
  simp only [Strikes, List.mem_append, or_and_right, exists_or]

/-- What stands elsewhere does not strike. -/
theorem not_strikes_of_apart {errors places inner : List Span}
    (apart : ∀ span ∈ errors, span ∉ places)
    (within : inner ⊆ places) : ¬ Strikes errors inner :=
  fun ⟨span, member, among⟩ => apart span member (within among)

/-- The errors found in a part of a tree, given its places and its crossings. -/
structure Found (places : List Span) (crossings : List Crossing) (errors : List Span) : Prop where
  among : errors ⊆ places
  inside : ∀ crossing ∈ crossings, crossing.front ⊆ places ∧ crossing.back ⊆ places
  order : Ascending places → (InOrder errors ↔ ∀ crossing ∈ crossings, ¬ crossing.Struck errors)

namespace Found

theorem nothing : Found [] [] [] :=
  ⟨List.nil_subset _, nofun, fun _ => iff_of_true List.Pairwise.nil nofun⟩

/-- Errors at one place are in order. -/
theorem single {place : Span} {errors : List Span} (here : ∀ span ∈ errors, span = place) :
    Found [place] [] errors := by
  refine ⟨fun span member => List.mem_singleton.mpr (here span member), nofun, fun _ => ?_⟩
  refine iff_of_true (List.pairwise_of_forall_mem_list fun first inFirst second inSecond => ?_)
    nofun
  rw [here first inFirst, here second inSecond]
  exact Span.not_before_self place

variable {places more : List Span} {crossings others : List Crossing} {errors further : List Span}

/-- In two parts that have no place in common, each has its own crossings. -/
theorem forall_not_struck (found : Found places crossings errors) (next : Found more others further)
    (apart : ∀ span ∈ places, span ∉ more) :
    (∀ crossing ∈ crossings ++ others, ¬ crossing.Struck (errors ++ further)) ↔
      (∀ crossing ∈ crossings, ¬ crossing.Struck errors) ∧
        ∀ crossing ∈ others, ¬ crossing.Struck further := by
  have behind : ∀ span ∈ further, span ∉ places :=
    fun span member among => apart span among (next.among member)
  have front : ∀ span ∈ errors, span ∉ more := fun span member => apart span (found.among member)
  have former : ∀ crossing ∈ crossings,
      (crossing.Struck (errors ++ further) ↔ crossing.Struck errors) := by
    intro crossing member
    obtain ⟨inFront, inBack⟩ := found.inside crossing member
    simp only [Crossing.Struck, strikes_append, not_strikes_of_apart behind inFront,
      not_strikes_of_apart behind inBack, or_false]
  have latter : ∀ crossing ∈ others,
      (crossing.Struck (errors ++ further) ↔ crossing.Struck further) := by
    intro crossing member
    obtain ⟨inFront, inBack⟩ := next.inside crossing member
    simp only [Crossing.Struck, strikes_append, not_strikes_of_apart front inFront,
      not_strikes_of_apart front inBack, false_or]
  rw [List.forall_mem_append]
  exact and_congr (forall₂_congr fun crossing member => not_congr (former crossing member))
    (forall₂_congr fun crossing member => not_congr (latter crossing member))

theorem inOrder_append : InOrder (errors ++ further) ↔ InOrder errors ∧ InOrder further ∧
    ∀ earlier ∈ errors, ∀ later ∈ further, ¬ later.Before earlier :=
  List.pairwise_append

/-- Two parts that are visited as they stand. -/
theorem append (found : Found places crossings errors) (next : Found more others further) :
    Found (places ++ more) (crossings ++ others) (errors ++ further) := by
  refine ⟨?_, ?_, fun ascending => ?_⟩
  · exact List.append_subset.mpr ⟨List.subset_append_of_subset_left _ found.among,
      List.subset_append_of_subset_right _ next.among⟩
  · intro crossing member
    rcases List.mem_append.mp member with member | member
    · obtain ⟨front, back⟩ := found.inside crossing member
      exact ⟨List.subset_append_of_subset_left _ front, List.subset_append_of_subset_left _ back⟩
    · obtain ⟨front, back⟩ := next.inside crossing member
      exact ⟨List.subset_append_of_subset_right _ front, List.subset_append_of_subset_right _ back⟩
  · obtain ⟨ascendingFirst, ascendingNext, before⟩ := List.pairwise_append.mp ascending
    have apart : ∀ span ∈ places, span ∉ more := fun span member among =>
      Span.not_before_self span (before span member span among)
    rw [found.forall_not_struck next apart, ← found.order ascendingFirst,
      ← next.order ascendingNext, inOrder_append, ← and_assoc]
    refine and_iff_left fun earlier inErrors later inFurther => ?_
    exact Span.not_before_of_before
      (before earlier (found.among inErrors) later (next.among inFurther))

/-- Two parts of which the second is visited first. -/
theorem crossed (found : Found places crossings errors) (next : Found more others further) :
    Found (more ++ places) (⟨more, places⟩ :: (crossings ++ others)) (errors ++ further) := by
  refine ⟨?_, ?_, fun ascending => ?_⟩
  · exact List.append_subset.mpr ⟨List.subset_append_of_subset_right _ found.among,
      List.subset_append_of_subset_left _ next.among⟩
  · intro crossing member
    rcases List.mem_cons.mp member with rfl | member
    · exact ⟨List.subset_append_left _ _, List.subset_append_right _ _⟩
    · rcases List.mem_append.mp member with member | member
      · obtain ⟨front, back⟩ := found.inside crossing member
        exact ⟨List.subset_append_of_subset_right _ front,
          List.subset_append_of_subset_right _ back⟩
      · obtain ⟨front, back⟩ := next.inside crossing member
        exact ⟨List.subset_append_of_subset_left _ front, List.subset_append_of_subset_left _ back⟩
  · obtain ⟨ascendingNext, ascendingFirst, before⟩ := List.pairwise_append.mp ascending
    have apart : ∀ span ∈ places, span ∉ more := fun span member among =>
      Span.not_before_self span (before span among span member)
    -- The part that is visited first stands behind the other: two errors, one in each, are always
    -- in the wrong order.
    have own : (∀ earlier ∈ errors, ∀ later ∈ further, ¬ later.Before earlier) ↔
        ¬ (Crossing.mk more places).Struck (errors ++ further) := by
      constructor
      · rintro ordered ⟨⟨later, inLater, amongMore⟩, earlier, inEarlier, amongPlaces⟩
        have inFurther := (List.mem_append.mp inLater).resolve_left fun wrong =>
          apart later (found.among wrong) amongMore
        have inErrors := (List.mem_append.mp inEarlier).resolve_right fun wrong =>
          apart earlier amongPlaces (next.among wrong)
        exact ordered earlier inErrors later inFurther (before later amongMore earlier amongPlaces)
      · intro clear earlier inErrors later inFurther _
        exact clear ⟨⟨later, List.mem_append_right _ inFurther, next.among inFurther⟩,
          earlier, List.mem_append_left _ inErrors, found.among inErrors⟩
    rw [List.forall_mem_cons, found.forall_not_struck next apart, ← found.order ascendingFirst,
      ← next.order ascendingNext, inOrder_append, own]
    exact and_rotate.symm

end Found

namespace Binding

variable {α β : Type}

/-! ## Passes -/

/-- The pass finds errors of a part with these places and crossings. -/
def Finds (places : List Span) (crossings : List Crossing) (pass : Pass α) : Prop :=
  ∀ resolver : Resolver, ∃ errors, (pass.run resolver).2.errors = resolver.errors ++ errors ∧
    Found places crossings (errors.map BindingError.span)

/-- The pass finds errors at this place only. -/
def FindsAt (place : Span) (pass : Pass α) : Prop :=
  ∀ resolver : Resolver, ∃ errors, (pass.run resolver).2.errors = resolver.errors ++ errors ∧
    ∀ error ∈ errors, error.span = place

/-- The pass finds no errors. -/
def Silent (pass : Pass α) : Prop :=
  ∀ resolver : Resolver, (pass.run resolver).2.errors = resolver.errors

theorem run_bind (first : Pass α) (next : α → Pass β) (resolver : Resolver) :
    ((first >>= next).run resolver).2 =
      ((next (first.run resolver).1).run (first.run resolver).2).2 := rfl

namespace Silent

theorem pure (value : α) : Silent (pure value : Pass α) := fun _ => rfl

theorem get : Silent (get : Pass Resolver) := fun _ => rfl

theorem modify {change : Resolver → Resolver}
    (keeps : ∀ resolver, (change resolver).errors = resolver.errors) :
    Silent (MonadState.modifyGet fun resolver => ((), change resolver) : Pass Unit) := keeps

theorem bind {first : Pass α} {next : α → Pass β} (silent : Silent first)
    (silentNext : ∀ value, Silent (next value)) : Silent (first >>= next) := fun resolver => by
  rw [run_bind, silentNext, silent]

theorem openScope (scope : Scope) : Silent (openScope scope) := fun _ => rfl

theorem closeScope : Silent closeScope := fun _ => rfl

theorem define (name : Name) : Silent (define name) := by
  refine .modify fun resolver => ?_
  split <;> rfl

theorem lookUp (name : String) (old : Option Address) : Silent (lookUp name old) :=
  .bind .get fun _ => .pure _

theorem finds {pass : Pass α} (silent : Silent pass) : Finds [] [] pass :=
  fun resolver => ⟨[], by rw [silent, List.append_nil], .nothing⟩

end Silent

namespace FindsAt

variable {place : Span}

theorem of_silent {pass : Pass α} (silent : Silent pass) : FindsAt place pass :=
  fun resolver => ⟨[], by rw [silent, List.append_nil], nofun⟩

theorem bind {first : Pass α} {next : α → Pass β} (finds : FindsAt place first)
    (findsNext : ∀ value, FindsAt place (next value)) : FindsAt place (first >>= next) := by
  intro resolver
  obtain ⟨errors, found, here⟩ := finds resolver
  obtain ⟨further, foundNext, hereNext⟩ :=
    findsNext (first.run resolver).1 (first.run resolver).2
  refine ⟨errors ++ further, ?_, fun error member => ?_⟩
  · rw [run_bind, foundNext, found, List.append_assoc]
  · exact (List.mem_append.mp member).elim (here error) (hereNext error)

theorem report (cause : BindingError.Cause) (lexeme : String) :
    FindsAt place (report cause lexeme place) := fun resolver =>
  ⟨[⟨cause, lexeme, place⟩], rfl, fun error member => by rw [List.mem_singleton.mp member]⟩

theorem reportIf (broken : Bool) (cause : BindingError.Cause) (lexeme : String) :
    FindsAt place (reportIf broken cause lexeme place) := by
  cases broken with
  | false => exact .of_silent (.pure ())
  | true => exact .report cause lexeme

theorem finds {pass : Pass α} (finds : FindsAt place pass) : Finds [place] [] pass := by
  intro resolver
  obtain ⟨errors, found, here⟩ := finds resolver
  refine ⟨errors, found, .single fun span member => ?_⟩
  obtain ⟨error, among, rfl⟩ := List.mem_map.mp member
  exact here error among

theorem declare (name : Name) : FindsAt name.span (declare name) := by
  refine fun resolver => ?_
  cases scopes : resolver.scopes with
  | nil =>
      refine ⟨[], ?_, nofun⟩
      simp [Binding.declare, scopes]
      rfl
  | cons scope outer =>
      by_cases taken : (scope.slot? name.text).isSome = true
      · refine ⟨[⟨.duplicate, name.text, name.span⟩], ?_, fun error member => ?_⟩
        · simp [Binding.declare, scopes, taken, Binding.report]
          rfl
        · rw [List.mem_singleton.mp member]
      · refine ⟨[], ?_, nofun⟩
        simp [Binding.declare, scopes, taken]
        rfl

theorem readVariable (reference : Reference) :
    FindsAt reference.name.span (readVariable reference) :=
  .bind (.of_silent .get) fun _ => .bind (.reportIf _ _ _) fun _ =>
    .of_silent (.bind (.lookUp _ _) fun _ => .pure _)

theorem readThis (address : Option Address) (span : Span) :
    FindsAt span (readThis address span) := by
  refine .bind (.of_silent .get) fun resolver => ?_
  split
  · exact .bind (.report _ _) fun _ => .of_silent (.pure _)
  · exact .of_silent (.lookUp _ _)

theorem readSuper (address : Option Address) (span : Span) :
    FindsAt span (readSuper address span) := by
  refine .bind (.of_silent .get) fun resolver => ?_
  cases resolver.classKind with
  | none => exact .bind (.report _ _) fun _ => .of_silent (.lookUp _ _)
  | base => exact .bind (.report _ _) fun _ => .of_silent (.lookUp _ _)
  | subclass => exact .of_silent (.lookUp _ _)

theorem checkReturn (hasValue : Bool) (span : Span) : FindsAt span (checkReturn hasValue span) :=
  .bind (.of_silent .get) fun _ => .bind (.reportIf _ _ _) fun _ => .reportIf _ _ _

theorem checkJump (cause : BindingError.Cause) (lexeme : String) (span : Span) :
    FindsAt span (checkJump cause lexeme span) :=
  .bind (.of_silent .get) fun _ => .reportIf _ _ _

end FindsAt

namespace Finds

variable {places more : List Span} {crossings others : List Crossing}

theorem bind {first : Pass α} {next : α → Pass β} (finds : Finds places crossings first)
    (findsNext : ∀ value, Finds more others (next value)) :
    Finds (places ++ more) (crossings ++ others) (first >>= next) := by
  intro resolver
  obtain ⟨errors, found, part⟩ := finds resolver
  obtain ⟨further, foundNext, partNext⟩ :=
    findsNext (first.run resolver).1 (first.run resolver).2
  refine ⟨errors ++ further, ?_, ?_⟩
  · rw [run_bind, foundNext, found, List.append_assoc]
  · rw [List.map_append]
    exact part.append partNext

/-- What is bound first stands behind what is bound next. -/
theorem bind_crossed {first : Pass α} {next : α → Pass β} (finds : Finds places crossings first)
    (findsNext : ∀ value, Finds more others (next value)) :
    Finds (more ++ places) (⟨more, places⟩ :: (crossings ++ others)) (first >>= next) := by
  intro resolver
  obtain ⟨errors, found, part⟩ := finds resolver
  obtain ⟨further, foundNext, partNext⟩ :=
    findsNext (first.run resolver).1 (first.run resolver).2
  refine ⟨errors ++ further, ?_, ?_⟩
  · rw [run_bind, foundNext, found, List.append_assoc]
  · rw [List.map_append]
    exact part.crossed partNext

theorem after {first : Pass α} {next : α → Pass β} (silent : Silent first)
    (finds : ∀ value, Finds places crossings (next value)) :
    Finds places crossings (first >>= next) :=
  silent.finds.bind finds

theorem before {first : Pass α} {next : α → Pass β} (finds : Finds places crossings first)
    (silent : ∀ value, Silent (next value)) : Finds places crossings (first >>= next) := by
  have both := finds.bind fun value => (silent value).finds
  rwa [List.append_nil, List.append_nil] at both

theorem declareParameters (parameters : List Name) :
    Finds (parameters.map Name.span) [] (declareParameters parameters) := by
  induction parameters with
  | nil => exact (Silent.pure ()).finds
  | cons parameter rest inductionHypothesis =>
      exact (FindsAt.declare parameter).finds.bind fun _ =>
        .after (.define parameter) fun _ => inductionHypothesis

theorem readSuperclass (className : Name) (superclass : Option Reference) :
    Finds (superclassPlaces superclass) [] (readSuperclass className superclass) := by
  cases superclass with
  | none => exact (Silent.pure none).finds
  | some superclass =>
      have here : FindsAt superclass.name.span
          (Binding.readSuperclass className (some superclass)) :=
        .bind (.reportIf _ _ _) fun _ => .bind (.of_silent (.modify fun _ => rfl)) fun _ =>
          .bind (.readVariable superclass) fun _ =>
            .of_silent (.bind (.openScope _) fun _ => .pure _)
      exact here.finds

end Finds

/-! ## Trees -/

-- Induction on the tree, by the laws above: `bind_crossed` for an assignment to a property and for
-- a loop, and `bind` for all that is visited as it stands.
mutual

theorem finds_resolve : (expr : Expr) → Finds expr.places expr.crossings expr.resolve
  | .literal _ _ => (Silent.pure _).finds
  | .grouping inner _ => .before (finds_resolve inner) fun _ => .pure _
  | .variable reference => .before (FindsAt.readVariable reference).finds fun _ => .pure _
  | .assign _ value _ =>
      .before (finds_resolve value) fun _ => .bind (.lookUp _ _) fun _ => .pure _
  | .unary _ operand _ => .before (finds_resolve operand) fun _ => .pure _
  | .binary _ left right _ =>
      .bind (finds_resolve left) fun _ => .before (finds_resolve right) fun _ => .pure _
  | .logical _ left right _ =>
      .bind (finds_resolve left) fun _ => .before (finds_resolve right) fun _ => .pure _
  | .call callee arguments _ =>
      .bind (finds_resolve callee) fun _ => .before (finds_resolveExprs arguments) fun _ => .pure _
  | .get object _ => .before (finds_resolve object) fun _ => .pure _
  | .set object _ value _ =>
      .bind_crossed (finds_resolve value) fun _ => .before (finds_resolve object) fun _ => .pure _
  | .this address span => .before (FindsAt.readThis address span).finds fun _ => .pure _
  | .super address _ span => .before (FindsAt.readSuper address span).finds fun _ => .pure _
  | .lambda function => .before (finds_resolveFunction .function function) fun _ => .pure _

theorem finds_resolveExprs : (exprs : List Expr) →
    Finds (placesOfExprs exprs) (crossingsOfExprs exprs) (resolveExprs exprs)
  | [] => (Silent.pure _).finds
  | expr :: rest =>
      .bind (finds_resolve expr) fun _ => .before (finds_resolveExprs rest) fun _ => .pure _

theorem finds_resolveOptionalExpr : (expr : Option Expr) →
    Finds (placesOfOptionalExpr expr) (crossingsOfOptionalExpr expr) (resolveOptionalExpr expr)
  | none => (Silent.pure _).finds
  | some expr => .before (finds_resolve expr) fun _ => .pure _

theorem finds_resolveStmt : (stmt : Stmt) → Finds stmt.places stmt.crossings stmt.resolve
  | .expression value _ => .before (finds_resolve value) fun _ => .pure _
  | .print value _ => .before (finds_resolve value) fun _ => .pure _
  | .var name initializer _ =>
      .bind (FindsAt.declare name).finds fun _ =>
        .before (finds_resolveOptionalExpr initializer) fun _ =>
          .bind (.define name) fun _ => .pure _
  | .block statements _ =>
      .after (.openScope []) fun _ => .before (finds_resolveStmts statements) fun _ =>
        .bind .closeScope fun _ => .pure _
  | .conditional condition thenBranch elseBranch _ =>
      .bind (finds_resolve condition) fun _ => .bind (finds_resolveStmt thenBranch) fun _ =>
        .before (finds_resolveOptionalStmt elseBranch) fun _ => .pure _
  | .loop condition body increment _ =>
      .bind (finds_resolve condition) fun _ => .after (.modify fun _ => rfl) fun _ =>
        .bind_crossed (finds_resolveStmt body) fun _ => .after (.modify fun _ => rfl) fun _ =>
          .before (finds_resolveOptionalExpr increment) fun _ => .pure _
  | .function declaration _ =>
      .bind (FindsAt.declare declaration.name).finds fun _ => .after (.define _) fun _ =>
        .before (finds_resolveFunction .function declaration) fun _ => .pure _
  | .return value span =>
      .bind (FindsAt.checkReturn value.isSome span).finds fun _ =>
        .before (finds_resolveOptionalExpr value) fun _ => .pure _
  | .class name superclass methods _ =>
      .after .get fun _ => .after (.modify fun _ => rfl) fun _ =>
        .bind (FindsAt.declare name).finds fun _ => .after (.define name) fun _ =>
          .bind (.readSuperclass name superclass) fun bound => .after (.openScope _) fun _ =>
            .before (finds_resolveMethods methods) fun _ => .bind .closeScope fun _ => by
              cases bound with
              | none => exact .bind (.modify fun _ => rfl) fun _ => .pure _
              | some _ =>
                  exact .bind .closeScope fun _ => .bind (.modify fun _ => rfl) fun _ => .pure _
  | .break span => .before (FindsAt.checkJump _ _ span).finds fun _ => .pure _
  | .continue span => .before (FindsAt.checkJump _ _ span).finds fun _ => .pure _

theorem finds_resolveOptionalStmt : (stmt : Option Stmt) →
    Finds (placesOfOptionalStmt stmt) (crossingsOfOptionalStmt stmt) (resolveOptionalStmt stmt)
  | none => (Silent.pure _).finds
  | some stmt => .before (finds_resolveStmt stmt) fun _ => .pure _

theorem finds_resolveStmts : (stmts : List Stmt) →
    Finds (placesOfStmts stmts) (crossingsOfStmts stmts) (resolveStmts stmts)
  | [] => (Silent.pure _).finds
  | stmt :: rest =>
      .bind (finds_resolveStmt stmt) fun _ => .before (finds_resolveStmts rest) fun _ => .pure _

theorem finds_resolveFunction (kind : FunctionKind) : (function : FunctionDeclaration) →
    Finds (placesOfFunction function) (crossingsOfFunction function) (resolveFunction kind function)
  | ⟨_, parameters, body, _⟩ =>
      .after .get fun _ => .after (.modify fun _ => rfl) fun _ => .after (.openScope []) fun _ =>
        .bind (.declareParameters parameters) fun _ => .before (finds_resolveStmts body) fun _ =>
          .bind .closeScope fun _ => .bind (.modify fun _ => rfl) fun _ => .pure _

theorem finds_resolveMethods : (methods : List FunctionDeclaration) →
    Finds (placesOfMethods methods) (crossingsOfMethods methods) (resolveMethods methods)
  | [] => (Silent.pure _).finds
  | method :: rest =>
      .bind (finds_resolveFunction (methodKind method) method) fun _ =>
        .before (finds_resolveMethods rest) fun _ => .pure _

end

end Binding

namespace Grammar

/-! ## Trees of tokens -/

/-- The places of what a phrase means. -/
def Phrase.places : (phrase : Phrase) → phrase.Tree → List Span
  | .expression => Expr.places
  | .operation _ => Expr.places
  | .call => Expr.places
  | .primary => Expr.places
  | .parameter => fun name => [name.span]
  | .function => fun tree => tree.1.map Name.span ++ placesOfStmts tree.2
  | .body => placesOfStmts
  | .method => placesOfFunction
  | .initializer => placesOfOptionalExpr
  | .varDeclaration => Stmt.places
  | .expressionStatement => Stmt.places
  | .statement _ => Stmt.places
  | .declaration => Stmt.places
  | .forStart => placesOfOptionalStmt
  | .optional item => fun tree => (tree.map item.places).getD []
  | .repeated item => List.flatMap item.places
  | .separated item => List.flatMap item.places
  | .list item => List.flatMap item.places

theorem placesOfExprs_eq_flatMap (exprs : List Expr) :
    placesOfExprs exprs = exprs.flatMap Expr.places := by
  induction exprs with
  | nil => rfl
  | cons expr rest inductionHypothesis => rw [placesOfExprs, List.flatMap_cons, inductionHypothesis]

theorem placesOfStmts_eq_flatMap (stmts : List Stmt) :
    placesOfStmts stmts = stmts.flatMap Stmt.places := by
  induction stmts with
  | nil => rfl
  | cons stmt rest inductionHypothesis => rw [placesOfStmts, List.flatMap_cons, inductionHypothesis]

theorem placesOfMethods_eq_flatMap (methods : List FunctionDeclaration) :
    placesOfMethods methods = methods.flatMap placesOfFunction := by
  induction methods with
  | nil => rfl
  | cons method rest inductionHypothesis =>
      rw [placesOfMethods, List.flatMap_cons, inductionHypothesis]

theorem placesOfOptionalExpr_eq (expr : Option Expr) :
    placesOfOptionalExpr expr = (expr.map Expr.places).getD [] := by
  cases expr <;> rfl

theorem Inheritance.places_sublist {tokens : List Token} {superclass : Option Reference}
    (clause : Inheritance tokens superclass) :
    (superclassPlaces superclass).Sublist (tokens.map Token.span) := by
  cases clause with
  | absent => exact List.Sublist.refl _
  | present mark parent _ _ => exact (List.Sublist.refl _).cons mark.span

/-- A `for` statement has the places of its clauses, as they are written, and of its body. -/
theorem places_meaningOfFor (start : Option Stmt) (condition : Expr) (increment : Option Expr)
    (body : Stmt) (span : Span) :
    (meaningOfFor start condition increment body span).places = placesOfOptionalStmt start ++
      (condition.places ++ (placesOfOptionalExpr increment ++ body.places)) := by
  cases start with
  | none => rfl
  | some first =>
      simp only [meaningOfFor, Stmt.places, placesOfStmts, placesOfOptionalStmt, List.append_nil]

theorem places_getD (condition : Option Expr) (value : Literal) (span : Span) :
    (condition.getD (.literal value span)).places = (condition.map Expr.places).getD [] := by
  cases condition <;> rfl

/-- The places of a tree are those of some of its tokens, in their order. -/
theorem Derives.places_sublist {phrase : Phrase} {tokens : List Token} {tree : phrase.Tree}
    (derives : Derives phrase tokens tree) :
    (phrase.places tree).Sublist (tokens.map Token.span) := by
  induction derives with
  | operation _ inner => exact inner
  | assignVariable _ _ _ _ source =>
      rw [List.map_append, List.map_cons]
      exact (source.cons _).trans (List.sublist_append_right _ _)
  | assignProperty _ _ _ place source =>
      rw [List.map_append, List.map_cons]
      exact place.append (source.cons _)
  | tighter _ inner => exact inner
  | @joined _ _ _ _ _ _ _ connective _ _ _ left right =>
      rw [List.map_append, List.map_cons]
      cases connective <;> exact left.append (right.cons _)
  | prefixed _ _ inner => exact inner.cons _
  | operand _ inner => exact inner
  | primary _ inner => exact inner
  | call _ _ _ _ called given =>
      simp only [List.map_append, List.map_cons, List.map_nil]
      simp only [Phrase.places] at given ⊢
      rw [Expr.places, placesOfExprs_eq_flatMap]
      exact called.append ((given.trans (List.sublist_append_left _ _)).cons _)
  | property _ _ _ owner =>
      rw [List.map_append]
      exact owner.trans (List.sublist_append_left _ _)
  | constant _ => exact List.nil_sublist _
  | reference _ => exact List.Sublist.refl _
  | this _ => exact List.Sublist.refl _
  | super _ _ _ => exact (List.nil_sublist _).cons_cons _
  | grouping _ _ _ inner =>
      simp only [List.map_append, List.map_cons, List.map_nil]
      exact (inner.trans (List.sublist_append_left _ _)).cons _
  | lambda _ _ rest => exact rest.cons _
  | parameter _ => exact List.Sublist.refl _
  | function _ _ _ _ named body =>
      simp only [List.map_append, List.map_cons]
      simp only [Phrase.places, ← List.map_eq_flatMap] at named ⊢
      exact (named.append (body.cons _)).cons _
  | body _ _ _ inner =>
      simp only [List.map_append, List.map_cons, List.map_nil]
      simp only [Phrase.places] at inner ⊢
      rw [placesOfStmts_eq_flatMap]
      exact (inner.trans (List.sublist_append_left _ _)).cons _
  | method _ _ rest => exact rest.cons _
  | getter _ _ body => exact body.cons _
  | noInitializer => exact List.Sublist.refl _
  | initializer _ _ inner => exact inner.cons _
  | varDeclaration _ _ _ _ inner =>
      simp only [List.map_append, List.map_cons, List.map_nil]
      exact ((inner.trans (List.sublist_append_left _ _)).cons_cons _).cons _
  | ofVariable _ inner => exact inner
  | ofFunction _ _ _ rest => exact (rest.cons_cons _).cons _
  | ofClass _ _ clause _ _ _ inner =>
      simp only [List.map_append, List.map_cons, List.map_nil]
      simp only [Phrase.places] at inner ⊢
      rw [Stmt.places, placesOfMethods_eq_flatMap]
      exact ((clause.places_sublist.append
        ((inner.trans (List.sublist_append_left _ _)).cons _)).cons_cons _).cons _
  | ofStatement _ inner => exact inner
  | expressionStatement _ _ inner =>
      simp only [List.map_append, List.map_cons, List.map_nil] at inner ⊢
      exact inner.trans (((List.sublist_append_left _ _)).cons_cons _)
  | ofExpression _ inner => exact inner
  | print _ _ _ inner =>
      simp only [List.map_append, List.map_cons, List.map_nil]
      exact (inner.trans (List.sublist_append_left _ _)).cons _
  | «return» _ _ _ inner =>
      simp only [List.map_append, List.map_cons, List.map_nil]
      simp only [Phrase.places] at inner ⊢
      rw [Stmt.places, placesOfOptionalExpr_eq]
      exact (inner.trans (List.sublist_append_left _ _)).cons_cons _
  | «break» _ _ => exact (List.nil_sublist _).cons_cons _
  | «continue» _ _ => exact (List.nil_sublist _).cons_cons _
  | block _ inner => exact inner
  | conditional _ _ _ _ _ test chosen =>
      simp only [List.map_append, List.map_cons]
      simp only [Phrase.places, Stmt.places, placesOfOptionalStmt, List.append_nil] at test chosen ⊢
      exact ((test.append (chosen.cons _)).cons _).cons _
  | conditionalElse _ _ _ _ _ _ _ test chosen other =>
      simp only [List.map_append, List.map_cons]
      exact ((test.append ((chosen.append (other.cons _)).cons _)).cons _).cons _
  | whileLoop _ _ _ _ _ test repeated =>
      simp only [List.map_append, List.map_cons]
      exact ((test.append (repeated.cons _)).cons _).cons _
  | startAbsent _ => exact List.nil_sublist _
  | startVariable _ inner => exact inner
  | startExpression _ inner => exact inner
  | forLoop _ _ _ _ _ _ _ _ starts test steps repeated =>
      simp only [List.map_append, List.map_cons]
      simp only [Phrase.places] at starts test steps repeated ⊢
      rw [places_meaningOfFor, places_getD, placesOfOptionalExpr_eq]
      exact ((starts.append (test.append ((steps.append (repeated.cons _)).cons _))).cons _).cons _
  | none item => exact List.Sublist.refl _
  | some _ inner => exact inner
  | done item => exact List.Sublist.refl _
  | again _ _ first others =>
      rw [List.map_append]
      exact first.append others
  | last _ inner =>
      simp only [Phrase.places, List.flatMap_singleton]
      exact inner
  | comma _ _ _ first others =>
      rw [List.map_append, List.map_cons]
      exact first.append (others.cons _)
  | empty item => exact List.Sublist.refl _
  | list _ _ inner => exact inner

end Grammar

open Grammar Binding

/-- The crossings of a program. -/
def Program.crossings (program : Program) : List Crossing := crossingsOfStmts program.statements

/-- Binding errors are in order exactly if no crossing has some on both of its sides. -/
theorem Resolver.errors_inOrder_iff {resolver : Resolver} (clean : resolver.errors = [])
    {tokens : List Token} {program : Program}
    (derives : Derives (.repeated .declaration) tokens program.statements)
    (ascending : Ascending (tokens.map Token.span)) :
    InOrder ((resolver.resolve program).errors.map BindingError.span) ↔
      ∀ crossing ∈ program.crossings,
        ¬ crossing.Struck ((resolver.resolve program).errors.map BindingError.span) := by
  obtain ⟨errors, appended, found⟩ := finds_resolveStmts program.statements resolver
  have same : (resolver.resolve program).errors = errors := by
    rw [clean, List.nil_append] at appended
    exact appended
  have places : (placesOfStmts program.statements).Sublist (tokens.map Token.span) := by
    rw [placesOfStmts_eq_flatMap]
    exact derives.places_sublist
  rw [same]
  exact found.order (ascending.sublist places)

end Lox
