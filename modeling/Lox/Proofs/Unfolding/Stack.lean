import Lox.Proofs.Lexical.Mirror
import Lox.Proofs.Unfolding.World

/-!
Contract: what two runs still have to do, one of a program and one with loops written out.

The stacks of the two runs have the same frames, but in a round of a loop that is written out.
There the second run is in the block that is its loop body, and the increment is to follow as a
statement of the block. Such a round does not end with a `continue`, which would leave the
increment out. So for each stack it is known whether a `continue` may reach it.

A declaration can only be met where both runs are in activations that are partners. What is
suspended further out is in activations that are older than the present one, so that a
declaration does not change what is in sight there.

Owns: stacks and machines side by side, and that they stay so when worlds grow. Does not own:
steps.
-/

set_option autoImplicit false

namespace Lox

/-! ## Flows, loops and frames -/

/-- The statements end alike. -/
inductive Flow.Alike : Flow → Flow → Prop
  | normal : Flow.Alike .normal .normal
  | break : Flow.Alike .break .break
  | continue : Flow.Alike .continue .continue
  | return {value value' : Value} (alike : value.Alike value') :
      Flow.Alike (.return value) (.return value')

/-- The other loop has the same parts. -/
structure Loop.Unfolds (loop other : Loop) : Prop where
  condition : loop.condition.Unfolds other.condition
  body : loop.body.Unfolds other.body
  increment : OptionalExprUnfolds loop.increment other.increment

/-- The other loop is the loop written out. -/
inductive Loop.WrittenOut : Loop → Loop → Prop
  | mk {condition condition' : Expr} {body body' : Stmt} {increment increment' : Expr}
      {spanOfRound spanOfIncrement : Span} (unfoldsCondition : condition.Unfolds condition')
      (unfoldsBody : body.Unfolds body') (unfoldsIncrement : increment.Unfolds increment')
      (undeclaring : body.declares = []) (notContinuing : body.continues = false) :
      Loop.WrittenOut ⟨condition, body, some increment⟩
        ⟨condition', .block [body', .expression increment' spanOfIncrement] spanOfRound, none⟩

/-- The names that may be declared right when the frame gets its value. -/
def Frame.declares {awaited outcome : Awaited} : Frame awaited outcome → List String
  | .declare name => [name.text]
  | .branch thenBranch elseBranch => thenBranch.declares ++ declaresOfOptionalStmt elseBranch
  | .condition loop => loop.body.declares
  | .increment loop => loop.body.declares
  | _ => []

/-- Whether a `continue` of the frame itself may leave it. -/
def Frame.continues {awaited outcome : Awaited} : Frame awaited outcome → Bool
  | .branch thenBranch elseBranch => thenBranch.continues || continuesOptional elseBranch
  | _ => false

/-- The frames do the same with alike values. -/
inductive Frame.Alike : {outcome : Awaited} → Frame .value outcome → Frame .value outcome → Prop
  | assign {target target' : Reference} (same : target'.name.text = target.name.text) :
      Frame.Alike (.assign target) (.assign target')
  | unary {operator : UnaryOperator} {span span' : Span} :
      Frame.Alike (.unary operator span) (.unary operator span')
  | leftOperand {operator : BinaryOperator} {right right' : Expr} {span span' : Span}
      (unfolds : right.Unfolds right') :
      Frame.Alike (.leftOperand operator right span) (.leftOperand operator right' span')
  | rightOperand {operator : BinaryOperator} {left left' : Value} {span span' : Span}
      (alike : left.Alike left') :
      Frame.Alike (.rightOperand operator left span) (.rightOperand operator left' span')
  | logical {operator : LogicalOperator} {right right' : Expr} (unfolds : right.Unfolds right') :
      Frame.Alike (.logical operator right) (.logical operator right')
  | callee {arguments arguments' : List Expr} {span span' : Span}
      (unfold : ExprsUnfold arguments arguments') :
      Frame.Alike (.callee arguments span) (.callee arguments' span')
  | argument {callee callee' : Value} {before before' : List Value} {others others' : List Expr}
      {span span' : Span} (alikeCallee : callee.Alike callee')
      (alikeBefore : List.Forall₂ Value.Alike before before') (unfold : ExprsUnfold others others') :
      Frame.Alike (.argument callee before others span) (.argument callee' before' others' span')
  | property {name name' : Name} (same : name'.text = name.text) :
      Frame.Alike (.property name) (.property name')
  | fieldObject {name name' : Name} {value value' : Expr} (same : name'.text = name.text)
      (unfolds : value.Unfolds value') :
      Frame.Alike (.fieldObject name value) (.fieldObject name' value')
  | fieldValue {object object' : Instance} {name name' : Name} (alike : object.Alike object')
      (same : name'.text = name.text) :
      Frame.Alike (.fieldValue object name) (.fieldValue object' name')
  | discard : Frame.Alike .discard .discard
  | print {span span' : Span} : Frame.Alike (.print span) (.print span')
  | declare {name name' : Name} (same : name'.text = name.text) :
      Frame.Alike (.declare name) (.declare name')
  | branch {thenBranch thenBranch' : Stmt} {elseBranch elseBranch' : Option Stmt}
      (unfoldsThen : thenBranch.Unfolds thenBranch')
      (unfoldsElse : OptionalStmtUnfolds elseBranch elseBranch') :
      Frame.Alike (.branch thenBranch elseBranch) (.branch thenBranch' elseBranch')
  | condition {loop loop' : Loop} (unfolds : loop.Unfolds loop') :
      Frame.Alike (.condition loop) (.condition loop')
  | conditionWrittenOut {loop loop' : Loop} (writtenOut : loop.WrittenOut loop') :
      Frame.Alike (.condition loop) (.condition loop')
  | increment {loop loop' : Loop} (unfolds : loop.Unfolds loop') :
      Frame.Alike (.increment loop) (.increment loop')
  | return : Frame.Alike .return .return
  | construct {object object' : Instance} (alike : object.Alike object') :
      Frame.Alike (.construct object) (.construct object')
  | call : Frame.Alike .call .call

namespace Lexical

/-! ## Stacks -/

/-- The stacks go on alike when results arrive in these scopes; whether a `continue` may arrive
is told. -/
inductive StacksAlike (pair : Pair) : {awaited : Awaited} → Bool → Option EnvironmentRef →
    Option EnvironmentRef → Stack awaited → Stack awaited → Prop
  | empty {awaited : Awaited} {free : Bool} :
      StacksAlike pair free none none (.empty : Stack awaited) .empty
  | value {outcome : Awaited} {free : Bool} {scope scope' : Option EnvironmentRef}
      {frame frame' : Frame .value outcome} {rest rest' : Stack outcome}
      (frames : frame.Alike frame') (declares : frame.declares ≠ [] → pair.Level scope scope')
      (continues : frame.continues = true → free = true)
      (rests : StacksAlike pair free scope scope' rest rest') :
      StacksAlike pair free scope scope' (.push frame rest) (.push frame' rest')
  | sequence {free : Bool} {scope scope' : Option EnvironmentRef} {others others' : List Stmt}
      {rest rest' : Stack .flow} (unfold : StmtsUnfold others others')
      (level : pair.Level scope scope') (continues : continuesAny others = true → free = true)
      (rests : StacksAlike pair free scope scope' rest rest') :
      StacksAlike pair free scope scope' (.push (.sequence others) rest)
        (.push (.sequence others') rest')
  | leave {free : Bool} {scope scope' previous previous' : Option EnvironmentRef}
      {rest rest' : Stack .flow} (outside : Outside previous scope)
      (seated : pair.Seated previous previous')
      (rests : StacksAlike pair free previous previous' rest rest') :
      StacksAlike pair free scope scope' (.push (.leave previous) rest)
        (.push (.leave previous') rest')
  | round {free : Bool} {scope scope' : Option EnvironmentRef} {loop loop' : Loop}
      {rest rest' : Stack .flow} (unfolds : loop.Unfolds loop')
      (declares : loop.body.declares ≠ [] → pair.Level scope scope')
      (rests : StacksAlike pair free scope scope' rest rest') :
      StacksAlike pair true scope scope' (.push (.round loop) rest) (.push (.round loop') rest')
  | body {free : Bool} {scope scope' : Option EnvironmentRef} {function function' : Function}
      {span span' : Span} {rest rest' : Stack .value} (alike : function.Alike function')
      (rests : StacksAlike pair free scope scope' rest rest') :
      StacksAlike pair true scope scope' (.push (.body function span) rest)
        (.push (.body function' span') rest')
  /-- In a round of a loop that is written out, the second run is in an activation of its own. -/
  | ownRound {free : Bool} {scope previous' : Option EnvironmentRef} {own : EnvironmentRef}
      {loop loop' : Loop} {increment' : Expr} {span : Span} {rest rest' : Stack .flow}
      (writtenOut : loop.WrittenOut loop')
      (unfolds : OptionalExprUnfolds loop.increment (some increment'))
      (between : pair.Between scope own) (seated : pair.Seated scope previous')
      (rests : StacksAlike pair free scope previous' rest rest') :
      StacksAlike pair false scope (some own) (.push (.round loop) rest)
        (.push (.sequence [.expression increment' span])
          (.push (.leave previous') (.push (.round loop') rest')))
  /-- And there it evaluates the increment, as a statement of a block. -/
  | ownIncrement {free : Bool} {scope previous' : Option EnvironmentRef} {own : EnvironmentRef}
      {loop loop' : Loop} {rest rest' : Stack .flow} (writtenOut : loop.WrittenOut loop')
      (between : pair.Between scope own) (seated : pair.Seated scope previous')
      (rests : StacksAlike pair free scope previous' rest rest') :
      StacksAlike pair free scope (some own) (.push (.increment loop) rest)
        (.push .discard (.push (.sequence [])
          (.push (.leave previous') (.push (.round loop') rest'))))

section Growth

variable {before after : Pair} {declared : Option EnvironmentRef} {awaited : Awaited} {free : Bool}
  {scope scope' : Option EnvironmentRef} {stack stack' : Stack awaited}

/-- Nothing changes for a stack where all that is declared is declared further in. -/
theorem StacksAlike.follow (rests : StacksAlike before free scope scope' stack stack')
    (follows : Pair.Follows declared before after)
    (further : ∀ ref ∈ scope, ∀ inner ∈ declared, ref < inner) :
    StacksAlike after free scope scope' stack stack' := by
  have elsewhere {outer : Option EnvironmentRef}
      (further : ∀ ref ∈ outer, ∀ inner ∈ declared, ref < inner) :
      ∀ ref ∈ outer, declared ≠ some ref := by
    rintro ref inside rfl
    exact Nat.lt_irrefl ref (further ref inside ref rfl)
  induction rests with
  | empty => exact .empty
  | value frames declares continues _ inductionHypothesis =>
      exact .value frames (fun some => follows.level (declares some)) continues
        (inductionHypothesis further)
  | sequence unfold level continues _ inductionHypothesis =>
      exact .sequence unfold (follows.level level) continues (inductionHypothesis further)
  | @leave _ _ _ previous _ _ _ outside seated _ inductionHypothesis =>
      have beyond : ∀ ref ∈ previous, ∀ inner ∈ declared, ref < inner := by
        intro ref inside inner here
        obtain ⟨middle, there, less⟩ := outside ref inside
        exact Nat.lt_trans less (further middle there inner here)
      exact .leave outside (follows.seated (elsewhere beyond) seated) (inductionHypothesis beyond)
  | round unfolds declares _ inductionHypothesis =>
      exact .round unfolds (fun some => follows.level (declares some)) (inductionHypothesis further)
  | body alike _ inductionHypothesis => exact .body alike (inductionHypothesis further)
  | ownRound writtenOut unfolds between seated _ inductionHypothesis =>
      exact .ownRound writtenOut unfolds (follows.between (elsewhere further) between)
        (follows.seated (elsewhere further) seated) (inductionHypothesis further)
  | ownIncrement writtenOut between seated _ inductionHypothesis =>
      exact .ownIncrement writtenOut (follows.between (elsewhere further) between)
        (follows.seated (elsewhere further) seated) (inductionHypothesis further)

/-- Nothing changes for a stack where nothing is declared. -/
theorem StacksAlike.follow_undeclaring (rests : StacksAlike before free scope scope' stack stack')
    (follows : Pair.Follows none before after) : StacksAlike after free scope scope' stack stack' :=
  rests.follow follows (by simp)

theorem Pair.Between.not_level {pair : Pair} {own : EnvironmentRef}
    (between : pair.Between scope own) : ¬ pair.Level scope (some own) := by
  intro level
  cases level with
  | linked link => exact between.apart (List.mem_of_getElem? link)

/-- Nor does a declaration in the present scopes change anything, if these are partners. -/
theorem StacksAlike.behind (rests : StacksAlike before free scope scope' stack stack')
    (level : before.Level scope scope') (follows : Pair.Follows scope before after) :
    StacksAlike after free scope scope' stack stack' := by
  induction rests with
  | empty => exact .empty
  | value frames declares continues _ inductionHypothesis =>
      exact .value frames (fun some => follows.level (declares some)) continues
        (inductionHypothesis level follows)
  | sequence unfold _ continues _ inductionHypothesis =>
      exact .sequence unfold (follows.level level) continues (inductionHypothesis level follows)
  | @leave _ scope _ previous _ _ _ outside seated rests =>
      have further : ∀ ref ∈ previous, ∀ inner ∈ scope, ref < inner := by
        intro ref inside inner here
        obtain ⟨middle, there, less⟩ := outside ref inside
        obtain rfl : middle = inner := Option.some.inj (there.symm.trans here)
        exact less
      have elsewhere : ∀ ref ∈ previous, scope ≠ some ref := by
        rintro ref inside here
        exact Nat.lt_irrefl ref (further ref inside ref here)
      exact .leave outside (follows.seated elsewhere seated) (rests.follow follows further)
  | round unfolds declares _ inductionHypothesis =>
      exact .round unfolds (fun some => follows.level (declares some))
        (inductionHypothesis level follows)
  | body alike _ inductionHypothesis => exact .body alike (inductionHypothesis level follows)
  | ownRound _ _ between _ _ => exact absurd level between.not_level
  | ownIncrement _ between _ _ => exact absurd level between.not_level

end Growth

/-! ## Machines -/

/-- The worlds are alike, and so are the stacks in the present scopes. -/
structure Pair.Holds (pair : Pair) {awaited : Awaited} (free : Bool) (stack stack' : Stack awaited) :
    Prop where
  alike : pair.Alike
  seated : pair.Seated pair.world.scope pair.other.scope
  rests : StacksAlike pair free pair.world.scope pair.other.scope stack stack'

/-- The two machines are about to do the same. -/
inductive Abreast : Machine → Machine → Prop
  | evaluate {partners : List EnvironmentRef} {world other : World} {expr expr' : Expr}
      {stack stack' : Stack .value} {free : Bool}
      (holds : Pair.Holds ⟨partners, world, other⟩ free stack stack')
      (unfolds : expr.Unfolds expr') :
      Abreast (.evaluate world expr stack) (.evaluate other expr' stack')
  | execute {partners : List EnvironmentRef} {world other : World} {stmt stmt' : Stmt}
      {stack stack' : Stack .flow} {free : Bool}
      (holds : Pair.Holds ⟨partners, world, other⟩ free stack stack')
      (unfolds : stmt.Unfolds stmt')
      (declares : stmt.declares ≠ [] → Pair.Level ⟨partners, world, other⟩ world.scope other.scope)
      (continues : stmt.continues = true → free = true) :
      Abreast (.execute world stmt stack) (.execute other stmt' stack')
  | answer {partners : List EnvironmentRef} {world other : World} {value value' : Value}
      {stack stack' : Stack .value} {free : Bool}
      (holds : Pair.Holds ⟨partners, world, other⟩ free stack stack')
      (alike : value.Alike value') :
      Abreast (.answer world value stack) (.answer other value' stack')
  | finish {partners : List EnvironmentRef} {world other : World} {flow flow' : Flow}
      {stack stack' : Stack .flow} {free : Bool}
      (holds : Pair.Holds ⟨partners, world, other⟩ free stack stack')
      (alike : flow.Alike flow') (continues : flow = .continue → free = true) :
      Abreast (.finish world flow stack) (.finish other flow' stack')

/-- The two machines are about to do the same, or both have just failed for the same cause. A
variable that has no value yet has the same slot for both. -/
inductive Arrives : Machine → Machine → Prop
  | abreast {machine machine' : Machine} (abreast : Abreast machine machine') :
      Arrives machine machine'
  | failed {world other : World} {mishap mishap' : Mishap} {awaited : Awaited}
      {stack stack' : Stack awaited} (alike : mishap.Alike mishap')
      (printed : other.printed = world.printed)
      (slots : ∀ name, (Binding.addressIn name (viewFrom other.place)).map Address.slot =
        (Binding.addressIn name (viewFrom world.place)).map Address.slot) :
      Arrives (.raise world mishap stack) (.raise other mishap' stack')

namespace Pair.Holds

variable {before after pair : Pair} {awaited : Awaited} {free : Bool} {stack stack' : Stack awaited}

/-- Worlds that have grown without a declaration in the present scopes. -/
theorem follow (holds : before.Holds free stack stack') (alike : after.Alike)
    (follows : Follows none before after) (scope : after.world.scope = before.world.scope)
    (scope' : after.other.scope = before.other.scope) : after.Holds free stack stack' where
  alike := alike
  seated := by
    rw [scope, scope']
    exact follows.seated_undeclaring holds.seated
  rests := by
    rw [scope, scope']
    exact holds.rests.follow_undeclaring follows

/-- Worlds behind a declaration in scopes that are partners. -/
theorem behind (holds : before.Holds free stack stack')
    (level : before.Level before.world.scope before.other.scope) (alike : after.Alike)
    (follows : Follows before.world.scope before after)
    (scope : after.world.scope = before.world.scope)
    (scope' : after.other.scope = before.other.scope) : after.Holds free stack stack' where
  alike := alike
  seated := by
    rw [scope, scope']
    exact .level (follows.level level)
  rests := by
    rw [scope, scope']
    exact holds.rests.behind level follows

/-- A frame that awaits a value, declares nothing and does not continue. -/
theorem push {outcome : Awaited} {frame frame' : Frame .value outcome} {rest rest' : Stack outcome}
    (holds : pair.Holds free rest rest') (frames : frame.Alike frame')
    (undeclaring : frame.declares = []) (notContinuing : frame.continues = false) :
    pair.Holds free (.push frame rest) (.push frame' rest') :=
  ⟨holds.alike, holds.seated, .value frames (fun some => absurd undeclaring some)
    (fun continues => absurd (notContinuing.symm.trans continues) Bool.false_ne_true) holds.rests⟩

theorem slots (holds : pair.Holds free stack stack') (name : String) :
    (Binding.addressIn name (viewFrom pair.other.place)).map Address.slot =
      (Binding.addressIn name (viewFrom pair.world.place)).map Address.slot :=
  (holds.seated.places holds.alike).slot name

/-- Both runs fail. -/
theorem failed {partners : List EnvironmentRef} {world other : World}
    (holds : Pair.Holds ⟨partners, world, other⟩ free stack stack') {mishap mishap' : Mishap}
    (alike : mishap.Alike mishap') : Arrives (.raise world mishap stack) (.raise other mishap' stack') :=
  .failed alike holds.alike.printed holds.slots

end Pair.Holds

end Lexical

end Lox
