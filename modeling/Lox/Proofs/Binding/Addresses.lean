import Lox.Proofs.Binding.Cleared
import Lox.Proofs.Binding.Enforced

/-!
Contract: the addresses of variables are lexical.

In a tree that was read and then bound, the use of a variable has the address that the
rules of scope give to its name: the depth counts the scopes between the use and the
innermost scope that declares the name in front of it, and the slot the different names
declared there before. Without such a scope it has none.

Main statement: `address_resolve_after`.

Owns: addresses along the regions around a place. Does not own: what an address means at
run time.
-/

set_option autoImplicit false

namespace Lox

open Binding

/-! ## Addresses along regions -/

theorem Region.declares_iff {region : Region} {name : String} {names : List String}
    (isLocal : region.localNames? = some names) : region.Declares name ↔ name ∈ names := by
  simp [Region.Declares, isLocal]

theorem Region.not_declares {region : Region} (name : String)
    (notLocal : region.localNames? = none) : ¬ region.Declares name := by
  simp [Region.Declares, notLocal]

namespace Regions

variable {region : Region} {outer : Regions} {name : String} {address : Address}

theorem not_addresses_nil : ¬ Addresses [] name address := by
  rintro ⟨inside, scope, outside, names, same, _⟩
  cases inside <;> cases same

/-- The innermost region declares the name. -/
theorem addresses_of_declares {names : List String} (isLocal : region.localNames? = some names)
    (member : name ∈ names) :
    Addresses (region :: outer) name address ↔
      address = ⟨0, (names.takeWhile (· ≠ name)).eraseDups.length⟩ := by
  constructor
  · rintro ⟨inside, scope, outside, others, same, absent, found, _, depth, slot⟩
    cases inside with
    | nil =>
        obtain ⟨rfl, rfl⟩ := List.cons.inj same
        obtain rfl := Option.some.inj (isLocal.symm.trans found)
        obtain ⟨_, _⟩ := address
        exact congrArg₂ Address.mk depth slot
    | cons first rest =>
        obtain ⟨rfl, _⟩ := List.cons.inj same
        exact absurd ((Region.declares_iff isLocal).mpr member) (absent region (by simp))
  · rintro rfl
    exact ⟨[], region, outer, names, rfl, by simp, isLocal, member, rfl, rfl⟩

/-- The innermost region does not declare the name. -/
theorem addresses_of_not_declares (absent : ¬ region.Declares name) :
    Addresses (region :: outer) name address ↔
      ∃ outward, Addresses outer name outward ∧
        address = { outward with depth := region.scopes + outward.depth } := by
  constructor
  · rintro ⟨inside, scope, outside, names, same, absents, found, member, depth, slot⟩
    cases inside with
    | nil =>
        obtain ⟨rfl, rfl⟩ := List.cons.inj same
        exact absurd ⟨names, found, member⟩ absent
    | cons first rest =>
        obtain ⟨rfl, rfl⟩ := List.cons.inj same
        refine ⟨⟨scopes rest, address.slot⟩,
          ⟨rest, scope, outside, names, rfl, ?_, found, member, rfl, slot⟩, ?_⟩
        · exact fun between present => absents between (List.mem_cons_of_mem _ present)
        · obtain ⟨_, _⟩ := address
          exact congrArg (Address.mk · _) depth
  · rintro ⟨outward, ⟨inside, scope, outside, names, rfl, absents, found, member, depth, slot⟩,
      rfl⟩
    refine ⟨region :: inside, scope, outside, names, rfl, ?_, found, member, ?_, slot⟩
    · intro between present
      obtain rfl | present := List.mem_cons.mp present
      · exact absent
      · exact absents between present
    · rw [Regions.scopes, ← depth]

/-- The slot of a name among the different names of a scope. -/
theorem idxOf?_eraseDups {names : List String} (member : name ∈ names) :
    names.eraseDups.idxOf? name = some (names.takeWhile (· ≠ name)).eraseDups.length := by
  obtain ⟨before, behind, rfl, absent⟩ := List.eq_append_cons_of_mem member
  have first : (before ++ name :: behind).takeWhile (· ≠ name) = before := by
    rw [List.takeWhile_append_of_pos (fun other present => by
      simpa using ne_of_mem_of_not_mem present absent)]
    simp
  rw [first, List.eraseDups_append]
  have different : before.eraseDups.findIdx? (· == name) = none :=
    List.idxOf?_eq_none_iff.mpr fun present => absent (List.mem_eraseDups.mp present)
  have head : ((name :: behind).removeAll before).eraseDups =
      name :: ((behind.removeAll before).filter fun other => !other == name).eraseDups := by
    rw [List.removeAll, List.filter_cons_of_pos (by simpa using absent), List.eraseDups_cons]
    rfl
  rw [head, List.idxOf?, List.findIdx?_append, different]
  simp [List.findIdx?_cons]

section

variable {context : Context}
  (outward : ∀ address, addressIn name context = some address ↔ Addresses outer name address)

include outward

/-- What is found further out, seen from within the region. -/
theorem map_address_iff {change : Address → Address} {depth : Nat}
    (deeper : ∀ found, change found = { found with depth := depth + found.depth }) :
    (addressIn name context).map change = some address ↔
      ∃ found, Addresses outer name found ∧
        address = { found with depth := depth + found.depth } := by
  rw [Option.map_eq_some_iff]
  simp only [outward, deeper, eq_comm]

theorem addressIn_local_iff {names : List String} (isLocal : region.localNames? = some names)
    (one : region.scopes = 1) :
    addressIn name (names.eraseDups :: context) = some address ↔
      Addresses (region :: outer) name address := by
  by_cases member : name ∈ names
  · rw [addressIn_of_idxOf? context (idxOf?_eraseDups member),
      addresses_of_declares isLocal member, Option.some.injEq, eq_comm]
  · have absent : name ∉ names.eraseDups := mt List.mem_eraseDups.mp member
    rw [addressIn_of_absent context absent,
      addresses_of_not_declares (mt (Region.declares_iff isLocal).mp member), one]
    exact map_address_iff outward fun found => by rw [inward, Nat.add_comm]

/-- The region is no scope of its own. -/
theorem addressIn_transparent_iff (notLocal : region.localNames? = none)
    (none : region.scopes = 0) :
    addressIn name context = some address ↔ Addresses (region :: outer) name address := by
  rw [addresses_of_not_declares (Region.not_declares name notLocal), outward]
  simp [none]

theorem addressIn_methods_iff (plain : Plain name) (inherits : Bool) :
    addressIn name (["this"] :: if inherits then ["super"] :: context else context) =
        some address ↔
      Addresses (.methods inherits :: outer) name address := by
  have notThis : name ∉ ["this"] := by simpa using plain_ne_this plain
  have notSuper : name ∉ ["super"] := by simpa using plain_ne_super plain
  rw [addresses_of_not_declares (Region.not_declares name rfl), addressIn_of_absent _ notThis]
  cases inherits with
  | false => exact map_address_iff outward fun found => by rw [inward, Nat.add_comm]; rfl
  | true =>
      simp only [if_true, addressIn_of_absent _ notSuper, Option.map_map]
      exact map_address_iff outward fun found => by
        simp [inward, Region.scopes, Nat.add_comm 2]

end

/-- By the rules of scope a name means what it means in the context of its place. The words
of the implicit scopes are no names. -/
theorem addressIn_context_iff (plain : Plain name) (around : Regions) (address : Address) :
    addressIn name around.context = some address ↔ around.Addresses name address := by
  induction around generalizing address with
  | nil => simp [context, addressIn, not_addresses_nil]
  | cons region outer outward =>
      cases region with
      | block names => exact addressIn_local_iff outward rfl rfl
      | function isInitializer names => exact addressIn_local_iff outward rfl rfl
      | methods inherits => exact addressIn_methods_iff outward plain inherits
      | loop => exact addressIn_transparent_iff outward rfl rfl
      | initializer own earlier => exact addressIn_transparent_iff outward rfl rfl
      | program names => exact addressIn_transparent_iff outward rfl rfl

/-- A name has an address exactly if one of the regions declares it. -/
theorem exists_addresses_iff (around : Regions) (name : String) :
    (∃ address, around.Addresses name address) ↔ ∃ region ∈ around, region.Declares name := by
  induction around with
  | nil => simp [not_addresses_nil]
  | cons region outer inductionHypothesis =>
      by_cases declares : region.Declares name
      · obtain ⟨names, isLocal, member⟩ := declares
        simp [addresses_of_declares isLocal member, Region.declares_iff isLocal, member]
      · have further : (∃ address, Addresses (region :: outer) name address) ↔
            ∃ address, Addresses outer name address := by
          simp only [addresses_of_not_declares declares]
          constructor
          · rintro ⟨_, outward, addressed, _⟩
            exact ⟨outward, addressed⟩
          · rintro ⟨outward, addressed⟩
            exact ⟨_, outward, addressed, rfl⟩
        rw [further, inductionHypothesis]
        simp [declares]

end Regions

/-! ## Occurrences in bound trees -/

/-- A use of a variable has the address of its name at its place. -/
def Occurrence.Addressed (occurrence : Occurrence) : Prop :=
  ∀ reference, occurrence.node.reference? = some reference →
    Plain reference.name.text ∧
      reference.address = addressIn reference.name.text occurrence.around.context

/-- All uses of variables have the addresses of their names at their places. -/
def AllAddressed (occurrences : List Occurrence) : Prop :=
  ∀ occurrence ∈ occurrences, occurrence.Addressed

theorem allAddressed_nil : AllAddressed [] := by simp [AllAddressed]

theorem allAddressed_append {first second : List Occurrence} :
    AllAddressed (first ++ second) ↔ AllAddressed first ∧ AllAddressed second :=
  List.forall_mem_append

theorem allAddressed_cons {occurrence : Occurrence} {others : List Occurrence} :
    AllAddressed (occurrence :: others) ↔ occurrence.Addressed ∧ AllAddressed others :=
  List.forall_mem_cons

/-- An occurrence that is no use of a variable. -/
theorem addressed_of_none {node : Node} (around : Regions) (none : node.reference? = none) :
    Occurrence.Addressed ⟨node, around⟩ := by
  intro reference some
  cases none.symm.trans some

/-- The use of a variable that had no address when it got that of its name. -/
theorem addressed_of_unbound {node : Node} {around : Regions} {reference : Reference}
    (found : node.reference? = some (reference.addressed around.context))
    (unbound : reference.Unbound) : Occurrence.Addressed ⟨node, around⟩ := by
  intro other same
  obtain rfl := Option.some.inj (found.symm.trans same)
  refine ⟨unbound.2, ?_⟩
  show addressOr around.context reference.name.text reference.address = _
  rw [unbound.1, addressOr, Option.or_none]
  rfl

theorem allAddressed_parameters (around : Regions) (parameters : List Name) :
    AllAddressed (occurrencesOfParameters around parameters) := by
  induction parameters generalizing around with
  | nil => exact allAddressed_nil
  | cons parameter rest inductionHypothesis =>
      exact allAddressed_cons.mpr ⟨addressed_of_none _ rfl, inductionHypothesis _⟩

theorem allAddressed_superclass (around : Regions) (className : Name)
    {superclass : Option Reference} (unbound : ∀ reference ∈ superclass, reference.Unbound) :
    AllAddressed (occurrencesOfSuperclass around className
      (superclass.map (Reference.addressed around.context))) := by
  cases superclass with
  | none => exact allAddressed_nil
  | some reference =>
      exact allAddressed_cons.mpr
        ⟨addressed_of_unbound rfl (unbound reference rfl), allAddressed_nil⟩

mutual

theorem Expr.allAddressed (around : Regions) (inClass : Bool) : (expr : Expr) → expr.Unbound →
    AllAddressed ((expr.addressed around.context inClass).occurrences around)
  | .literal _ _, _ => allAddressed_nil
  | .grouping inner _, unbound => inner.allAddressed around inClass unbound
  | .variable _, unbound =>
      allAddressed_cons.mpr ⟨addressed_of_unbound rfl unbound, allAddressed_nil⟩
  | .assign _ value _, unbound =>
      allAddressed_append.mpr ⟨value.allAddressed around inClass unbound.2,
        allAddressed_cons.mpr ⟨addressed_of_unbound rfl unbound.1, allAddressed_nil⟩⟩
  | .unary _ operand _, unbound => operand.allAddressed around inClass unbound
  | .binary _ left right _, unbound =>
      allAddressed_append.mpr
        ⟨left.allAddressed around inClass unbound.1, right.allAddressed around inClass unbound.2⟩
  | .logical _ left right _, unbound =>
      allAddressed_append.mpr
        ⟨left.allAddressed around inClass unbound.1, right.allAddressed around inClass unbound.2⟩
  | .call callee arguments _, unbound =>
      allAddressed_append.mpr ⟨callee.allAddressed around inClass unbound.1,
        allAddressedExprs around inClass arguments unbound.2⟩
  | .get object _, unbound => object.allAddressed around inClass unbound
  | .set object _ value _, unbound =>
      allAddressed_append.mpr
        ⟨value.allAddressed around inClass unbound.2, object.allAddressed around inClass unbound.1⟩
  | .this _ _, _ => allAddressed_cons.mpr ⟨addressed_of_none _ rfl, allAddressed_nil⟩
  | .super _ _ _, _ => allAddressed_cons.mpr ⟨addressed_of_none _ rfl, allAddressed_nil⟩
  | .lambda function, unbound => allAddressedFunction around inClass false function unbound

theorem allAddressedExprs (around : Regions) (inClass : Bool) : (exprs : List Expr) →
    unboundExprs exprs →
    AllAddressed (occurrencesOfExprs around (addressedExprs around.context inClass exprs))
  | [], _ => allAddressed_nil
  | expr :: rest, unbound =>
      allAddressed_append.mpr ⟨expr.allAddressed around inClass unbound.1,
        allAddressedExprs around inClass rest unbound.2⟩

theorem allAddressedOptionalExpr (around : Regions) (inClass : Bool) : (expr : Option Expr) →
    unboundOptionalExpr expr →
    AllAddressed
      (occurrencesOfOptionalExpr around (addressedOptionalExpr around.context inClass expr))
  | none, _ => allAddressed_nil
  | some expr, unbound => expr.allAddressed around inClass unbound

theorem Stmt.allAddressed {around : Regions} (atStatement : around.AtStatement)
    (inClass : Bool) : (stmt : Stmt) → stmt.Unbound →
    AllAddressed ((stmt.addressed around.context inClass).occurrences around)
  | .expression value _, unbound => value.allAddressed around inClass unbound
  | .print value _, unbound => value.allAddressed around inClass unbound
  | .var name initializer _, unbound => by
      have inside := allAddressedOptionalExpr
        (.initializer name.text around.declared :: around.declare name.text) inClass initializer
        unbound.2
      rw [Regions.context, atStatement.context_declare] at inside
      exact allAddressed_cons.mpr ⟨addressed_of_none _ rfl, inside⟩
  | .block statements _, unbound =>
      allAddressedStmts (.block [] around) inClass statements unbound
  | .conditional condition thenBranch elseBranch _, unbound => by
      have second := allAddressedBranch (atStatement.declareAll thenBranch.declares) inClass
        elseBranch unbound.2.2
      rw [atStatement.context_declareAll] at second
      simp only [Stmt.addressed, Stmt.occurrences, Stmt.declares_addressed, allAddressed_append]
      exact ⟨condition.allAddressed around inClass unbound.1,
        thenBranch.allAddressed atStatement inClass unbound.2.1.1, second⟩
  | .loop condition body increment _, unbound => by
      have further := allAddressedOptionalExpr (around.declareAll body.declares) inClass increment
        unbound.2.2
      rw [atStatement.context_declareAll] at further
      simp only [Stmt.addressed, Stmt.occurrences, Stmt.declares_addressed, allAddressed_append]
      exact ⟨condition.allAddressed around inClass unbound.1,
        body.allAddressed (.loop atStatement) inClass unbound.2.1.1, further⟩
  | .function declaration _, unbound => by
      have inside := allAddressedFunction (around.declare declaration.name.text) inClass false
        declaration unbound.2
      rw [atStatement.context_declare] at inside
      simp only [Stmt.addressed, Stmt.occurrences, addressedFunction_name, allAddressed_cons]
      exact ⟨addressed_of_none _ rfl, inside⟩
  | .return value _, unbound =>
      allAddressed_cons.mpr
        ⟨addressed_of_none _ rfl, allAddressedOptionalExpr around inClass value unbound⟩
  | .class name superclass methods _, unbound => by
      have inherits := allAddressed_superclass (around.declare name.text) name unbound.2.1
      have inside := allAddressedMethods
        (.methods superclass.isSome :: around.declare name.text) methods unbound.2.2
      rw [Regions.context, atStatement.context_declare] at inside
      rw [atStatement.context_declare] at inherits
      simp only [Stmt.addressed, Stmt.occurrences, Option.isSome_map, allAddressed_cons,
        allAddressed_append]
      exact ⟨addressed_of_none _ rfl, inherits, inside⟩
  | .break _, _ => allAddressed_cons.mpr ⟨addressed_of_none _ rfl, allAddressed_nil⟩
  | .continue _, _ => allAddressed_cons.mpr ⟨addressed_of_none _ rfl, allAddressed_nil⟩

theorem allAddressedBranch {around : Regions} (atStatement : around.AtStatement)
    (inClass : Bool) : (branch : Option Stmt) → unboundBranch branch →
    AllAddressed
      (occurrencesOfOptionalStmt around (addressedOptionalStmt around.context inClass branch))
  | none, _ => allAddressed_nil
  | some branch, unbound => branch.allAddressed atStatement inClass unbound.1

theorem allAddressedStmts {around : Regions} (atStatement : around.AtStatement)
    (inClass : Bool) : (stmts : List Stmt) → unboundStmts stmts →
    AllAddressed (occurrencesOfStmts around (addressedStmts around.context inClass stmts))
  | [], _ => allAddressed_nil
  | stmt :: rest, unbound => by
      have others := allAddressedStmts (atStatement.declareAll stmt.declares) inClass rest
        unbound.2
      rw [atStatement.context_declareAll] at others
      simp only [addressedStmts, occurrencesOfStmts, Stmt.declares_addressed, allAddressed_append]
      exact ⟨stmt.allAddressed atStatement inClass unbound.1, others⟩

theorem allAddressedFunction (around : Regions) (inClass isInitializer : Bool) :
    (function : FunctionDeclaration) → unboundFunction function →
    AllAddressed (occurrencesOfFunction around isInitializer
      (addressedFunction around.context inClass function))
  | ⟨_, parameters, body, _⟩, unbound => by
      have inside := allAddressedStmts
        (.function isInitializer (parameters.map Name.text) around) inClass body unbound.2.2
      have context := Regions.context_function isInitializer parameters around
      rw [context] at inside
      exact allAddressed_append.mpr ⟨allAddressed_parameters _ parameters, inside⟩

theorem allAddressedMethods (around : Regions) : (methods : List FunctionDeclaration) →
    unboundFunctions methods →
    AllAddressed (occurrencesOfMethods around (addressedFunctions around.context methods))
  | [], _ => allAddressed_nil
  | method :: rest, unbound => by
      simp only [addressedFunctions, occurrencesOfMethods, addressedFunction_isInitializer,
        allAddressed_append]
      exact ⟨allAddressedFunction around true method.isInitializer method unbound.1,
        allAddressedMethods around rest unbound.2⟩

end

/-! ## Programs -/

/-- The program is what a source is read as, or prints the expression that a source is read
as. -/
def Program.FreshlyRead (program : Program) : Prop :=
  ∃ source, Program.ofTokens (Scan.of source).tokens = .ok program ∨
    ∃ expr, Expr.ofTokens (Scan.of source).tokens = .ok expr ∧ program = .printing expr

theorem Program.FreshlyRead.unbound {program : Program} (read : program.FreshlyRead) :
    unboundStmts program.statements := by
  obtain ⟨source, accepted | ⟨expr, accepted, rfl⟩⟩ := read
  · have derives := Program.derives_of_ofTokens accepted
    exact Grammar.unboundStmts_of_forall (derives.unbound (Grammar.plainTokens_of_scan source))
  · have derives := Expr.derives_of_ofTokens accepted
    exact ⟨derives.unbound (Grammar.plainTokens_of_scan source), trivial⟩

namespace Binding

/-- After any history, a program that was read only gets addresses, right or wrong. A variable
that is read, assigned or inherited from has an address exactly if a local scope around it
declares its name in front of it, and then the one that the rules of scope give to it. -/
theorem address_resolve_after (history : List Resolver.Task) {program : Program}
    (read : program.FreshlyRead) :
    ((Resolver.after history).resolve program).program.cleared = program ∧
      ∀ occurrence ∈
        ((Resolver.after history).resolve program).program.occurrences (namesOf history),
      ∀ reference, occurrence.node.reference? = some reference →
        (reference.address ≠ none ↔
          ∃ region ∈ occurrence.around, region.Declares reference.name.text) ∧
        ∀ address, reference.address = some address ↔
          occurrence.around.Addresses reference.name.text address := by
  refine ⟨cleared_bound _ read.unbound, ?_⟩
  rw [((awaits_after history).resolve program).1]
  intro occurrence member reference used
  have addressed : AllAddressed (program.addressed.occurrences (namesOf history)) :=
    allAddressedStmts (.program (namesOf history)) false program.statements read.unbound
  obtain ⟨plain, found⟩ := addressed occurrence member reference used
  have lexical : ∀ address, reference.address = some address ↔
      occurrence.around.Addresses reference.name.text address := by
    intro address
    rw [found]
    exact Regions.addressIn_context_iff plain occurrence.around address
  refine ⟨?_, lexical⟩
  rw [← Regions.exists_addresses_iff, Option.ne_none_iff_exists']
  exact exists_congr lexical

/-- A method in a function that declares a parameter again and reads a variable in its own
initializer. -/
def capturing : String :=
  "fun f(a, b) \x7b class C < A \x7b m(c) \x7b while (c) \x7b var d = b; b = g; \x7d \x7d \x7d\n" ++
  "var a; var e = e; \x7d"

/-- Bound for the second time, and with two errors. From the body of the loop, the scopes of the
block, of the method, of `this` and of `super` are inside that of the function. -/
theorem address_resolve_after_capturing :
    let history (program : Program) := [.define "A", .bind program]
    ∃ program, Program.ofTokens (Scan.of capturing).tokens = .ok program ∧
      let resolution := (Resolver.after (history program)).resolve program
      resolution.errors.map BindingError.cause = [.duplicate, .ownInitializer] ∧
      resolution.program.cleared = program ∧
      (resolution.program.occurrences ["A", "f"]).filterMap
          (fun occurrence => occurrence.node.reference?.map fun reference =>
            (reference.name.text, reference.address)) =
        [("A", none), ("c", some ⟨0, 0⟩), ("b", some ⟨4, 1⟩), ("g", none), ("b", some ⟨4, 1⟩),
          ("e", some ⟨0, 3⟩)] ∧
      ∀ occurrence ∈ resolution.program.occurrences ["A", "f"],
        ∀ reference, occurrence.node.reference? = some reference →
          ∀ address, reference.address = some address ↔
            occurrence.around.Addresses reference.name.text address := by
  intro history
  have reads : (Program.ofTokens (Scan.of capturing).tokens).toOption.isSome = true := by
    decide +kernel
  have known :
      let program := (Program.ofTokens (Scan.of capturing).tokens).toOption.getD ⟨[]⟩
      let resolution := (Resolver.after (history program)).resolve program
      resolution.errors.map BindingError.cause = [.duplicate, .ownInitializer] ∧
        namesOf (history program) = ["A", "f"] ∧
        (resolution.program.occurrences ["A", "f"]).filterMap
            (fun occurrence => occurrence.node.reference?.map fun reference =>
              (reference.name.text, reference.address)) =
          [("A", none), ("c", some ⟨0, 0⟩), ("b", some ⟨4, 1⟩), ("g", none),
            ("b", some ⟨4, 1⟩), ("e", some ⟨0, 3⟩)] := by
    decide +kernel
  cases read : Program.ofTokens (Scan.of capturing).tokens with
  | error errors => simp [read, Except.toOption] at reads
  | ok program =>
      simp only [read, Except.toOption, Option.getD_some] at known
      obtain ⟨errors, names, found⟩ := known
      obtain ⟨same, lexical⟩ :=
        address_resolve_after (history program) ⟨capturing, .inl read⟩
      rw [names] at lexical
      exact ⟨program, rfl, errors, same, found,
        fun occurrence member reference used => (lexical occurrence member reference used).2⟩

end Binding

end Lox
