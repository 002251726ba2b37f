import Lox.Proofs.Lexical.Machine
import Lox.Proofs.Lexical.Known
import Lox.Proofs.Running.Names
import Lox.Proofs.Unfolding.Values

/-!
Contract: worlds of two runs by name, of a program and of the program with loops written out.

The second run makes all activations that the first one makes, its partners, and one more for
each round of a loop that is written out. In such an activation nothing is ever declared. So a
place of the second run sees what the place of the first one sees, and besides it activations
without names: a name means partners at both places.

Where the second run is in an activation of its own, the first one declares nothing, and so what
is in sight there stays as it was when the activation was made.

Owns: pairs of worlds, and that operations on both worlds keep them alike. Does not own: steps.
-/

set_option autoImplicit false

namespace Lox.Lexical

open Binding

/-! ## Arrays -/

/-- The arrays have the same length and related elements. -/
def ArraysAlike {α : Type} (alike : α → α → Prop) (array other : Array α) : Prop :=
  ∀ index : Nat, Option.Rel alike array[index]? other[index]?

namespace ArraysAlike

variable {α : Type} {alike : α → α → Prop} {array other : Array α}

theorem size (arrays : ArraysAlike alike array other) : other.size = array.size := by
  have behind := arrays array.size
  have behindOther := arrays other.size
  rw [Array.getElem?_size] at behind behindOther
  have le : other.size ≤ array.size := by
    cases found : other[array.size]? with
    | none => exact Array.getElem?_eq_none_iff.mp found
    | some value =>
        rw [found] at behind
        cases behind
  have ge : array.size ≤ other.size := by
    cases found : array[other.size]? with
    | none => exact Array.getElem?_eq_none_iff.mp found
    | some value =>
        rw [found] at behindOther
        cases behindOther
  exact Nat.le_antisymm le ge

theorem push (arrays : ArraysAlike alike array other) {value value' : α}
    (both : alike value value') : ArraysAlike alike (array.push value) (other.push value') := by
  intro index
  rw [Array.getElem?_push, Array.getElem?_push, arrays.size]
  split
  · exact .some both
  · exact arrays index

theorem modify (arrays : ArraysAlike alike array other) (index : Nat) {change change' : α → α}
    (both : ∀ value value', alike value value' → alike (change value) (change' value')) :
    ArraysAlike alike (array.modify index change) (other.modify index change') := by
  intro place
  rw [Array.getElem?_modify, Array.getElem?_modify]
  have here := arrays place
  split
  · revert here
    generalize array[place]? = found
    generalize other[place]? = found'
    rintro (related | _)
    · exact .some (both _ _ related)
    · exact .none
  · exact here

theorem mono {weaker : α → α → Prop} (arrays : ArraysAlike alike array other)
    (weaken : ∀ value value', alike value value' → weaker value value') :
    ArraysAlike weaker array other := by
  intro index
  have here := arrays index
  revert here
  generalize array[index]? = found
  generalize other[index]? = found'
  rintro (related | _)
  · exact .some (weaken _ _ related)
  · exact .none

end ArraysAlike

/-! ## Places -/

/-- The other place sees the same names in the partners of the activations, and between them
activations in which it sees no names. -/
inductive PlacesAlike (partners : List EnvironmentRef) : Place → Place → Prop
  | top : PlacesAlike partners [] []
  | linked {ref ref' : EnvironmentRef} {names : List String} {outer outer' : Place}
      (link : partners[ref]? = some ref') (alike : PlacesAlike partners outer outer') :
      PlacesAlike partners (⟨ref, names⟩ :: outer) (⟨ref', names⟩ :: outer')
  | between {ref' : EnvironmentRef} {place outer' : Place}
      (alike : PlacesAlike partners place outer') :
      PlacesAlike partners place (⟨ref', []⟩ :: outer')

/-- Later activations do not change the partner of an activation. -/
theorem getElem?_of_grown {partners later : List EnvironmentRef} (grown : partners <+: later)
    {ref ref' : EnvironmentRef} (link : partners[ref]? = some ref') : later[ref]? = some ref' := by
  obtain ⟨inRange, here⟩ := List.getElem?_eq_some_iff.mp link
  rw [List.prefix_iff_getElem?.mp grown ref inRange, here]

namespace PlacesAlike

variable {partners : List EnvironmentRef} {place other : Place}

theorem mono {later : List EnvironmentRef} (alike : PlacesAlike partners place other)
    (grown : partners <+: later) : PlacesAlike later place other := by
  induction alike with
  | top => exact .top
  | linked link _ inductionHypothesis =>
      exact .linked (getElem?_of_grown grown link) inductionHypothesis
  | between _ inductionHypothesis => exact .between inductionHypothesis

/-- A name that is in sight is seen in partners. -/
theorem seenIn (alike : PlacesAlike partners place other) (name : String) :
    Option.Rel (fun ref ref' => partners[ref]? = some ref') (seenIn name place)
      (seenIn name other) := by
  induction alike with
  | top => exact .none
  | linked link _ inductionHypothesis =>
      simp only [Lexical.seenIn]
      split
      · exact .some link
      · exact inductionHypothesis
  | between _ inductionHypothesis => simpa [Lexical.seenIn] using inductionHypothesis

/-- A name has the same slot, as there are no slots in an activation without names. -/
theorem slot (alike : PlacesAlike partners place other) (name : String) :
    (addressIn name (viewFrom other)).map Address.slot =
      (addressIn name (viewFrom place)).map Address.slot := by
  induction alike with
  | top => rfl
  | @linked _ _ names _ _ _ _ inductionHypothesis =>
      simp only [viewFrom, List.map_cons, addressIn]
      cases names.idxOf? name with
      | some slot => rfl
      | none =>
          rw [Option.map_map, Option.map_map]
          exact inductionHypothesis
  | between _ inductionHypothesis =>
      simp only [viewFrom, List.map_cons, addressIn, List.idxOf?_nil]
      rw [Option.map_map]
      exact inductionHypothesis

end PlacesAlike

/-! ## Pairs of worlds -/

/-- Worlds of two runs. The activations of the first run have partners in the second one, which
are listed in the order of the activations. -/
structure Pair where
  partners : List EnvironmentRef
  world : World
  other : World

/-- The cells have the same names and alike contents, at alike places. -/
structure ActivationsAlike (partners : List EnvironmentRef) (activation other : Activation) :
    Prop where
  cells : Table.Alike (Option.Rel Value.Alike) activation.cells other.cells
  outer : PlacesAlike partners activation.outer other.outer

namespace Pair

/-- All that the worlds hold is alike. -/
structure Alike (pair : Pair) : Prop where
  complete : pair.partners.length = pair.world.activations.size
  distinct : pair.partners.Nodup
  linked : ∀ (ref ref' : EnvironmentRef), pair.partners[ref]? = some ref' →
    ∃ activation activation', pair.world.activations[ref]? = some activation ∧
      pair.other.activations[ref']? = some activation' ∧
      ActivationsAlike pair.partners activation activation'
  globals : Table.Alike Value.Alike pair.world.globals pair.other.globals
  homes : ArraysAlike (PlacesAlike pair.partners) pair.world.homes pair.other.homes
  fields : ArraysAlike (Table.Alike Value.Alike) pair.world.fields pair.other.fields
  natives : pair.other.natives = pair.world.natives
  discreet : ∀ operation ∈ pair.world.natives, operation.Discreet
  callDepth : pair.other.callDepth = pair.world.callDepth
  callLimit : pair.other.callLimit = pair.world.callLimit
  moment : pair.other.moment = pair.world.moment
  outlet : pair.other.outlet = pair.world.outlet
  written : pair.other.written = pair.world.written
  printed : pair.other.printed = pair.world.printed

/-- Both scopes are the top level, or activations that are partners. -/
inductive Level (pair : Pair) : Option EnvironmentRef → Option EnvironmentRef → Prop
  | top : Level pair none none
  | linked {ref ref' : EnvironmentRef} (link : pair.partners[ref]? = some ref') :
      Level pair (some ref) (some ref')

/-- The activation is one that the second run made of its own right inside a scope that is as
the scope of the first run. -/
structure Between (pair : Pair) (scope : Option EnvironmentRef) (own : EnvironmentRef) : Prop where
  apart : own ∉ pair.partners
  inRange : ∀ ref ∈ scope, ref < pair.world.activations.size
  empty : ∃ outer, pair.other.activations[own]? = some ⟨.empty, outer⟩ ∧
    PlacesAlike pair.partners (pair.world.placeAt scope) outer

/-- The scopes are at the same point, but that the second run may be in an activation of its
own. -/
inductive Seated (pair : Pair) : Option EnvironmentRef → Option EnvironmentRef → Prop
  | level {scope scope' : Option EnvironmentRef} (level : pair.Level scope scope') :
      Seated pair scope scope'
  | between {scope : Option EnvironmentRef} {own : EnvironmentRef}
      (between : pair.Between scope own) : Seated pair scope (some own)

variable {pair before after : Pair} {scope scope' : Option EnvironmentRef}

theorem Seated.inRange (alike : pair.Alike) (seated : pair.Seated scope scope') :
    ∀ ref ∈ scope, ref < pair.world.activations.size := by
  intro ref inside
  cases seated with
  | level level =>
      cases level with
      | top => cases inside
      | linked link =>
          obtain rfl := Option.some.inj inside
          rw [← alike.complete]
          exact (List.getElem?_eq_some_iff.mp link).1
  | between between => exact between.inRange ref inside

/-- The scopes see the same. -/
theorem Seated.places (alike : pair.Alike) (seated : pair.Seated scope scope') :
    PlacesAlike pair.partners (pair.world.placeAt scope) (pair.other.placeAt scope') := by
  cases seated with
  | level level =>
      cases level with
      | top => exact .top
      | linked link =>
          obtain ⟨activation, activation', found, found', both⟩ := alike.linked _ _ link
          simp only [World.placeAt, World.placeIn, found, found', both.cells.names]
          exact .linked link both.outer
  | between between =>
      obtain ⟨outer, found, places⟩ := between.empty
      simp only [World.placeAt, World.placeIn, found]
      exact .between places

/-! ## What operations keep -/

/-- The second pair is reached from the first one. No activation is lost and none of those of
the second run's own is changed; and what the first run sees in an activation is as before, but
where it has declared a name. -/
structure Follows (declared : Option EnvironmentRef) (before after : Pair) : Prop where
  partners : before.partners <+: after.partners
  size : before.world.activations.size ≤ after.world.activations.size
  places : ∀ ref < before.world.activations.size, declared ≠ some ref →
    after.world.placeIn ref = before.world.placeIn ref
  own : ∀ (ref : EnvironmentRef) (activation : Activation), ref ∉ before.partners →
    before.other.activations[ref]? = some activation →
      ref ∉ after.partners ∧ after.other.activations[ref]? = some activation

namespace Follows

variable {declared : Option EnvironmentRef}

theorem of_same (partners : after.partners = before.partners)
    (activations : after.world.activations = before.world.activations)
    (activations' : after.other.activations = before.other.activations) :
    Follows declared before after where
  partners := partners ▸ List.prefix_rfl
  size := activations ▸ Nat.le_refl _
  places ref _ _ := by rw [World.placeIn, World.placeIn, activations]
  own ref activation apart found := by
    rw [partners, activations']
    exact ⟨apart, found⟩

theorem trans {first second third : Pair} (one : Follows declared first second)
    (two : Follows declared second third) : Follows declared first third where
  partners := one.partners.trans two.partners
  size := Nat.le_trans one.size two.size
  places ref inRange other := by
    rw [two.places ref (Nat.lt_of_lt_of_le inRange one.size) other, one.places ref inRange other]
  own ref activation apart found := by
    obtain ⟨stillApart, stillFound⟩ := one.own ref activation apart found
    exact two.own ref activation stillApart stillFound

theorem level (follows : Follows declared before after) (level : before.Level scope scope') :
    after.Level scope scope' := by
  cases level with
  | top => exact .top
  | linked link => exact .linked (getElem?_of_grown follows.partners link)

theorem between (follows : Follows declared before after) {own : EnvironmentRef}
    (elsewhere : ∀ ref ∈ scope, declared ≠ some ref) (between : before.Between scope own) :
    after.Between scope own := by
  obtain ⟨outer, found, places⟩ := between.empty
  obtain ⟨apart, foundAfter⟩ := follows.own own _ between.apart found
  refine ⟨apart, fun ref inside => Nat.lt_of_lt_of_le (between.inRange ref inside) follows.size,
    outer, foundAfter, ?_⟩
  have same : after.world.placeAt scope = before.world.placeAt scope := by
    cases scope with
    | none => rfl
    | some ref => exact follows.places ref (between.inRange ref rfl) (elsewhere ref rfl)
  rw [same]
  exact places.mono follows.partners

theorem seated (follows : Follows declared before after)
    (elsewhere : ∀ ref ∈ scope, declared ≠ some ref) (seated : before.Seated scope scope') :
    after.Seated scope scope' := by
  cases seated with
  | level level => exact .level (follows.level level)
  | between between => exact .between (follows.between elsewhere between)

/-- Where nothing is declared, scopes at the same point stay so. -/
theorem seated_undeclaring (follows : Follows none before after)
    (seated : before.Seated scope scope') : after.Seated scope scope' :=
  follows.seated (by simp) seated

end Follows

/-! ## Cells -/

section Cells

variable {ref ref' : EnvironmentRef}

theorem Alike.cell? (alike : pair.Alike) (link : pair.partners[ref]? = some ref')
    (name : String) :
    Option.Rel (Option.Rel Value.Alike) (pair.world.cell? ref name) (pair.other.cell? ref' name) := by
  obtain ⟨activation, activation', found, found', both⟩ := alike.linked ref ref' link
  simp only [World.cell?, found, found', Option.bind_some]
  exact both.cells.find? name

theorem Alike.setCell (alike : pair.Alike) (link : pair.partners[ref]? = some ref')
    (name : String) {content content' : Option Value}
    (both : Option.Rel Value.Alike content content') :
    Alike ⟨pair.partners, pair.world.setCell ref name content,
      pair.other.setCell ref' name content'⟩ where
  complete := by
    rw [alike.complete]
    exact (Array.size_modify).symm
  distinct := alike.distinct
  linked other other' linkOther := by
    obtain ⟨activation, activation', found, found', related⟩ := alike.linked other other' linkOther
    have sameSide : ref = other ↔ ref' = other' := by
      constructor
      · rintro rfl
        exact Option.some.inj (link.symm.trans linkOther)
      · rintro rfl
        exact (List.getElem?_inj (List.getElem?_eq_some_iff.mp link).1 alike.distinct).mp
          (link.trans linkOther.symm)
    simp only [World.setCell, Array.getElem?_modify, found, found']
    by_cases here : ref = other
    · simp only [here, sameSide.mp here, if_true, Option.map_some]
      exact ⟨_, _, rfl, rfl, related.cells.insert name both, related.outer⟩
    · have there : ref' ≠ other' := fun same => here (sameSide.mpr same)
      exact ⟨activation, activation', by simp [here], by simp [there], related⟩
  globals := alike.globals
  homes := alike.homes
  fields := alike.fields
  natives := alike.natives
  discreet := alike.discreet
  callDepth := alike.callDepth
  callLimit := alike.callLimit
  moment := alike.moment
  outlet := alike.outlet
  written := alike.written
  printed := alike.printed

theorem placeIn_setCell_of_ne {world : World} {other : EnvironmentRef} (different : ref ≠ other)
    (name : String) (content : Option Value) :
    (world.setCell ref name content).placeIn other = world.placeIn other := by
  simp [World.placeIn, World.setCell, Array.getElem?_modify, different]

theorem follows_setCell (link : pair.partners[ref]? = some ref') (name : String)
    (content content' : Option Value) :
    Follows (some ref) pair ⟨pair.partners, pair.world.setCell ref name content,
      pair.other.setCell ref' name content'⟩ where
  partners := List.prefix_rfl
  size := Nat.le_of_eq (Array.size_modify).symm
  places other _ different :=
    placeIn_setCell_of_ne (fun same => different (congrArg some same)) name content
  own other activation apart found := by
    have different : ref' ≠ other := by
      rintro rfl
      exact apart (List.mem_of_getElem? link)
    exact ⟨apart, by simpa [World.setCell, Array.getElem?_modify, different] using found⟩

/-- A cell that is there gets another content: the names are the same. -/
theorem follows_setCell_of_cell? (link : pair.partners[ref]? = some ref') {name : String}
    {old : Option Value} (present : pair.world.cell? ref name = some old)
    (content content' : Option Value) :
    Follows none pair ⟨pair.partners, pair.world.setCell ref name content,
      pair.other.setCell ref' name content'⟩ := by
  have follows := follows_setCell link name content content'
  refine ⟨follows.partners, follows.size, ?_, follows.own⟩
  intro other inRange _
  by_cases here : ref = other
  · subst here
    obtain ⟨activation, found, cell⟩ := Option.bind_eq_some_iff.mp present
    have known : name ∈ activation.cells.names :=
      (activation.cells.isSome_find?_iff name).mp (by simp [cell])
    simp [World.placeIn, World.setCell, Array.getElem?_modify, found,
      Table.names_insert_of_mem activation.cells known]
  · exact placeIn_setCell_of_ne here name content

end Cells

/-! ## Variables -/

end Pair

/-- The failures have the same cause. -/
inductive Mishap.Alike : Mishap → Mishap → Prop
  | violation {broken : Fault.Violation} {span span' : Span} :
      Mishap.Alike (.violation broken span) (.violation broken span')
  | stackOverflow {span span' : Span} : Mishap.Alike (.stackOverflow span) (.stackOverflow span')
  | output {reason : String} {span span' : Span} :
      Mishap.Alike (.output reason span) (.output reason span')
  | emptyCell {name : String} {span span' : Span} :
      Mishap.Alike (.emptyCell name span) (.emptyCell name span')

namespace Pair

variable {pair : Pair} {scope scope' : Option EnvironmentRef}

theorem Alike.readFrom (alike : pair.Alike) {place place' : Place}
    (places : PlacesAlike pair.partners place place') (name : String) (span span' : Span) :
    Result.Alike Mishap.Alike (pair.world.readFrom place name span)
      (pair.other.readFrom place' name span') := by
  have seen := places.seenIn name
  simp only [World.readFrom]
  revert seen
  generalize seenIn name place = found
  generalize seenIn name place' = found'
  rintro (link | _)
  · have cells := alike.cell? link name
    revert cells
    dsimp only
    generalize World.cell? pair.world _ name = cell
    generalize World.cell? pair.other _ name = cell'
    rintro ((both | _) | _)
    · exact .ok both
    · exact .error .emptyCell
    · exact .error .emptyCell
  · have globals := alike.globals.find? name
    revert globals
    dsimp only
    generalize Table.find? pair.world.globals name = global
    generalize Table.find? pair.other.globals name = global'
    rintro (both | _)
    · exact .ok both
    · exact .error .violation

theorem Alike.read (alike : pair.Alike) (seated : pair.Seated pair.world.scope pair.other.scope)
    (name : String) (span span' : Span) :
    Result.Alike Mishap.Alike (pair.world.read name span) (pair.other.read name span') :=
  alike.readFrom (seated.places alike) name span span'

theorem Alike.assignmentMishap? (alike : pair.Alike)
    (seated : pair.Seated pair.world.scope pair.other.scope) (name : String) (span span' : Span) :
    Option.Rel Mishap.Alike (pair.world.assignmentMishap? name span)
      (pair.other.assignmentMishap? name span') := by
  have read := alike.read seated name span span'
  simp only [World.assignmentMishap?]
  revert read
  generalize World.read pair.world name span = found
  generalize World.read pair.other name span' = found'
  rintro (_ | both)
  · exact .none
  · exact .some both

/-- A variable that has a value gets another one. -/
theorem Alike.assign (alike : pair.Alike) (seated : pair.Seated pair.world.scope pair.other.scope)
    {name : String} {span : Span} (assignable : pair.world.assignmentMishap? name span = none)
    {value value' : Value} (both : value.Alike value') :
    Alike ⟨pair.partners, pair.world.assign name value, pair.other.assign name value'⟩ ∧
      Follows none pair
        ⟨pair.partners, pair.world.assign name value, pair.other.assign name value'⟩ := by
  have seen := (seated.places alike).seenIn name
  simp only [World.assignmentMishap?, World.read, World.readFrom, World.place] at assignable
  simp only [World.assign, World.place]
  revert seen assignable
  generalize seenIn name (pair.world.placeAt pair.world.scope) = found
  generalize seenIn name (pair.other.placeAt pair.other.scope) = found'
  intro assignable seen
  cases seen with
  | some link =>
      refine ⟨alike.setCell link name (.some both), ?_⟩
      cases present : pair.world.cell? _ name with
      | some old => exact follows_setCell_of_cell? link present _ _
      | none => simp [present] at assignable
  | none => exact ⟨{ alike with globals := alike.globals.insert name both }, .of_same rfl rfl rfl⟩

/-- A declaration in scopes that are partners. -/
theorem Alike.announce (alike : pair.Alike) (level : pair.Level pair.world.scope pair.other.scope)
    (name : String) :
    Alike ⟨pair.partners, pair.world.announce name, pair.other.announce name⟩ ∧
      Follows pair.world.scope pair
        ⟨pair.partners, pair.world.announce name, pair.other.announce name⟩ := by
  simp only [World.announce]
  revert level
  generalize pair.world.scope = scope
  generalize pair.other.scope = scope'
  rintro (_ | link)
  · exact ⟨alike, .of_same rfl rfl rfl⟩
  · exact ⟨alike.setCell link name .none, follows_setCell link name none none⟩

theorem Alike.define (alike : pair.Alike) (level : pair.Level pair.world.scope pair.other.scope)
    (name : String) {value value' : Value} (both : value.Alike value') :
    Alike ⟨pair.partners, pair.world.define name value, pair.other.define name value'⟩ ∧
      Follows pair.world.scope pair
        ⟨pair.partners, pair.world.define name value, pair.other.define name value'⟩ := by
  simp only [World.define]
  revert level
  generalize pair.world.scope = scope
  generalize pair.other.scope = scope'
  rintro (_ | link)
  · exact ⟨{ alike with globals := alike.globals.insert name both }, .of_same rfl rfl rfl⟩
  · exact ⟨alike.setCell link name (.some both), follows_setCell link name _ _⟩

/-! ## Activations -/

section Activate

variable {outer outer' : Place}

theorem linked_mono {partners later : List EnvironmentRef} (grown : partners <+: later)
    {activation other : Activation} (both : ActivationsAlike partners activation other) :
    ActivationsAlike later activation other :=
  ⟨both.cells, both.outer.mono grown⟩

/-- The activations of the second run that are there are not partners of later ones. -/
theorem Alike.lt_size (alike : pair.Alike) {own : EnvironmentRef} (member : own ∈ pair.partners) :
    own < pair.other.activations.size := by
  obtain ⟨ref, link⟩ := List.mem_iff_getElem?.mp member
  obtain ⟨_, _, _, found, _⟩ := alike.linked ref own link
  exact (Array.getElem?_eq_some_iff.mp found).1

/-- The cells of names that have values. -/
theorem alike_zip {names : List String} {values values' : List Value}
    (both : List.Forall₂ Value.Alike values values') :
    Table.Alike (Option.Rel Value.Alike) ⟨names.zip (values.map some)⟩
      ⟨names.zip (values'.map some)⟩ := by
  simp only [Table.Alike]
  induction both generalizing names with
  | nil => simp
  | cons here _ inductionHypothesis =>
      cases names with
      | nil => exact .nil
      | cons name rest => exact .cons ⟨rfl, .some here⟩ inductionHypothesis

/-- Both runs make an activation: the two are partners. -/
theorem Alike.activate (alike : pair.Alike) (places : PlacesAlike pair.partners outer outer')
    (names : List String) {values values' : List Value}
    (both : List.Forall₂ Value.Alike values values') {after : Pair}
    (made : after = ⟨pair.partners ++ [pair.other.activations.size],
      (pair.world.activate outer names values).2, (pair.other.activate outer' names values').2⟩) :
    after.Alike ∧ Follows none pair after ∧
      after.partners[(pair.world.activate outer names values).1]? =
        some (pair.other.activate outer' names values').1 := by
  subst made
  have grown : pair.partners <+: pair.partners ++ [pair.other.activations.size] :=
    List.prefix_append _ _
  have link : (pair.partners ++ [pair.other.activations.size])[pair.world.activations.size]? =
      some pair.other.activations.size := by
    rw [← alike.complete]
    exact List.getElem?_concat_length
  refine ⟨{ alike with complete := ?_, distinct := ?_, linked := ?_, homes := ?_ }, ?_, link⟩
  · simp [World.activate, alike.complete]
  · refine List.nodup_append.mpr ⟨alike.distinct, List.pairwise_singleton _ _, ?_⟩
    intro own member fresh here
    obtain rfl := List.mem_singleton.mp here
    exact Nat.ne_of_lt (alike.lt_size member)
  · intro ref ref' linkRef
    by_cases last : ref = pair.world.activations.size
    · subst last
      obtain rfl := Option.some.inj (link.symm.trans linkRef)
      exact ⟨_, _, Array.getElem?_push_size, Array.getElem?_push_size, alike_zip both,
        places.mono grown⟩
    · have inRange : ref < pair.partners.length := by
        have bound := (List.getElem?_eq_some_iff.mp linkRef).1
        rw [List.length_append, List.length_singleton, alike.complete] at bound
        rw [alike.complete]
        exact Nat.lt_of_le_of_ne (Nat.le_of_lt_succ bound) last
      have linkBefore : pair.partners[ref]? = some ref' := by
        rwa [List.getElem?_append_left inRange] at linkRef
      obtain ⟨activation, activation', found, found', related⟩ := alike.linked ref ref' linkBefore
      have bound := (Array.getElem?_eq_some_iff.mp found).1
      have bound' := (Array.getElem?_eq_some_iff.mp found').1
      refine ⟨activation, activation', ?_, ?_, linked_mono grown related⟩
      · simpa [World.activate, Array.getElem?_push, Nat.ne_of_lt bound] using found
      · simpa [World.activate, Array.getElem?_push, Nat.ne_of_lt bound'] using found'
  · exact alike.homes.mono fun _ _ related => related.mono grown
  · refine ⟨grown, by simp [World.activate], ?_, ?_⟩
    · intro ref inRange _
      simp [World.placeIn, World.activate, Array.getElem?_push, Nat.ne_of_lt inRange]
    · intro ref activation apart found
      have bound := (Array.getElem?_eq_some_iff.mp found).1
      refine ⟨?_, by simpa [World.activate, Array.getElem?_push, Nat.ne_of_lt bound] using found⟩
      simp [apart, Nat.ne_of_lt bound]

/-- The second run makes an activation of its own. -/
theorem Alike.activateOwn (alike : pair.Alike)
    (seated : pair.Seated pair.world.scope pair.other.scope) {after : Pair}
    (made : after = ⟨pair.partners, pair.world,
      (pair.other.activate pair.other.place [] []).2⟩) :
    after.Alike ∧ Follows none pair after ∧
      after.Between pair.world.scope (pair.other.activate pair.other.place [] []).1 := by
  subst made
  have apart : pair.other.activations.size ∉ pair.partners :=
    fun member => Nat.lt_irrefl _ (alike.lt_size member)
  refine ⟨{ alike with linked := ?_ }, ?_, ?_⟩
  · intro ref ref' link
    obtain ⟨activation, activation', found, found', related⟩ := alike.linked ref ref' link
    have bound := (Array.getElem?_eq_some_iff.mp found').1
    refine ⟨activation, activation', found, ?_, related⟩
    simpa [World.activate, Array.getElem?_push, Nat.ne_of_lt bound] using found'
  · refine ⟨List.prefix_rfl, Nat.le_refl _, fun _ _ _ => rfl, ?_⟩
    intro ref activation apart found
    have bound := (Array.getElem?_eq_some_iff.mp found).1
    exact ⟨apart, by simpa [World.activate, Array.getElem?_push, Nat.ne_of_lt bound] using found⟩
  · have inRange := seated.inRange alike
    exact ⟨apart, inRange, _, Array.getElem?_push_size, seated.places alike⟩

end Activate

/-! ## Functions, classes and instances -/

section Makes

variable {place place' : Place}

theorem Alike.pushHome (alike : pair.Alike) (places : PlacesAlike pair.partners place place') :
    Alike ⟨pair.partners, { pair.world with homes := pair.world.homes.push place },
      { pair.other with homes := pair.other.homes.push place' }⟩ :=
  { alike with homes := alike.homes.push places }

theorem follows_pushHome :
    Follows none pair ⟨pair.partners, { pair.world with homes := pair.world.homes.push place },
      { pair.other with homes := pair.other.homes.push place' }⟩ :=
  .of_same rfl rfl rfl

theorem Alike.home (alike : pair.Alike) {function other : Function}
    (both : function.Alike other) :
    PlacesAlike pair.partners (pair.world.home function) (pair.other.home other) := by
  have homes := alike.homes function.identity
  simp only [World.home, both.identity]
  revert homes
  generalize pair.world.homes[function.identity]? = found
  generalize pair.other.homes[function.identity]? = found'
  rintro (places | _)
  · exact places
  · exact .top

theorem Alike.makeFunction (alike : pair.Alike) {declaration declaration' : FunctionDeclaration}
    (unfolds : FunctionUnfolds declaration declaration') (isInitializer : Bool) :
    Function.Alike (pair.world.makeFunction declaration place isInitializer).1
      (pair.other.makeFunction declaration' place' isInitializer).1 :=
  ⟨alike.homes.size, unfolds, rfl⟩

theorem Alike.makeMethods (alike : pair.Alike) (places : PlacesAlike pair.partners place place')
    {methods methods' : List FunctionDeclaration} (unfold : FunctionsUnfold methods methods') :
    Alike ⟨pair.partners, (World.makeMethods place methods pair.world).2,
        (World.makeMethods place' methods' pair.other).2⟩ ∧
      Follows none pair ⟨pair.partners, (World.makeMethods place methods pair.world).2,
        (World.makeMethods place' methods' pair.other).2⟩ ∧
      List.Forall₂ (fun entry entry' => entry'.1 = entry.1 ∧ entry.2.Alike entry'.2)
        (World.makeMethods place methods pair.world).1
        (World.makeMethods place' methods' pair.other).1 := by
  induction methods generalizing pair methods' with
  | nil =>
      cases unfold with
      | nil => exact ⟨alike, .of_same rfl rfl rfl, .nil⟩
  | cons declaration rest inductionHypothesis =>
      cases unfold with
      | @cons _ declaration' _ rest' unfolds unfoldRest =>
          obtain ⟨alikeRest, follows, others⟩ :=
            inductionHypothesis (alike.pushHome places) places unfoldRest
          refine ⟨alikeRest, follows_pushHome.trans follows, .cons ⟨unfolds.name, ?_⟩ others⟩
          have made : Function.Alike (pair.world.makeFunction declaration place _).1
              (pair.other.makeFunction declaration' place' _).1 :=
            alike.makeFunction unfolds declaration.isInitializer
          rw [← unfolds.isInitializer] at made
          rw [← unfolds.isInitializer]
          exact made

theorem Alike.makeClass (alike : pair.Alike) (places : PlacesAlike pair.partners place place')
    {methods methods' : List FunctionDeclaration} (unfold : FunctionsUnfold methods methods')
    (name : String) {superclass superclass' : Option Class}
    (inherited : Option.Rel Class.Alike superclass superclass') :
    Alike ⟨pair.partners, (pair.world.makeClass name superclass place methods).2,
        (pair.other.makeClass name superclass' place' methods').2⟩ ∧
      Follows none pair ⟨pair.partners, (pair.world.makeClass name superclass place methods).2,
        (pair.other.makeClass name superclass' place' methods').2⟩ ∧
      Class.Alike (pair.world.makeClass name superclass place methods).1
        (pair.other.makeClass name superclass' place' methods').1 := by
  obtain ⟨alikeMethods, follows, made⟩ := alike.makeMethods places unfold
  have own := Table.alike_ofList made
  refine ⟨alikeMethods.pushHome .top, follows.trans follows_pushHome, ?_⟩
  simp only [World.makeClass, alikeMethods.homes.size]
  cases inherited with
  | none => exact .base own
  | some inherited => exact .derived inherited own

theorem Alike.bindMethod (alike : pair.Alike) {method method' : Function}
    (both : method.Alike method') {receiver receiver' : Instance}
    (receivers : receiver.Alike receiver') :
    ∃ partners, Alike ⟨partners, (pair.world.bindMethod method receiver).2,
          (pair.other.bindMethod method' receiver').2⟩ ∧
      Follows none pair ⟨partners, (pair.world.bindMethod method receiver).2,
          (pair.other.bindMethod method' receiver').2⟩ ∧
      Function.Alike (pair.world.bindMethod method receiver).1
        (pair.other.bindMethod method' receiver').1 := by
  have places := alike.home both
  obtain ⟨alikeMade, follows, link⟩ :=
    alike.activate places ["this"] (.cons (.instance receivers) .nil) rfl
  have inside : PlacesAlike _ (⟨_, ["this"]⟩ :: pair.world.home method)
      (⟨_, ["this"]⟩ :: pair.other.home method') :=
    .linked link (places.mono follows.partners)
  refine ⟨_, alikeMade.pushHome inside, follows.trans follows_pushHome, ?_⟩
  simp only [World.bindMethod, both.isInitializer]
  exact alikeMade.makeFunction both.declaration method.isInitializer

theorem Alike.makeInstance (alike : pair.Alike) {origin origin' : Class}
    (both : origin.Alike origin') :
    Alike ⟨pair.partners, (pair.world.makeInstance origin).2, (pair.other.makeInstance origin').2⟩ ∧
      Follows none pair
        ⟨pair.partners, (pair.world.makeInstance origin).2, (pair.other.makeInstance origin').2⟩ ∧
      Instance.Alike (pair.world.makeInstance origin).1 (pair.other.makeInstance origin').1 :=
  ⟨{ alike with fields := alike.fields.push Table.alike_empty }, .of_same rfl rfl rfl,
    alike.fields.size, both⟩

theorem Alike.field? (alike : pair.Alike) {object object' : Instance}
    (both : object.Alike object') (name : String) :
    Option.Rel Value.Alike (pair.world.field? object name) (pair.other.field? object' name) := by
  have fields := alike.fields object.identity
  simp only [World.field?, both.identity]
  revert fields
  generalize pair.world.fields[object.identity]? = found
  generalize pair.other.fields[object.identity]? = found'
  rintro (tables | _)
  · exact tables.find? name
  · exact .none

theorem Alike.setField (alike : pair.Alike) {object object' : Instance}
    (both : object.Alike object') (name : String) {value value' : Value}
    (values : value.Alike value') :
    Alike ⟨pair.partners, pair.world.setField object name value,
        pair.other.setField object' name value'⟩ ∧
      Follows none pair ⟨pair.partners, pair.world.setField object name value,
        pair.other.setField object' name value'⟩ := by
  refine ⟨{ alike with fields := ?_ }, .of_same rfl rfl rfl⟩
  simp only [World.setField, both.identity]
  exact alike.fields.modify object.identity fun _ _ tables => tables.insert name values

end Makes

end Pair

end Lox.Lexical
