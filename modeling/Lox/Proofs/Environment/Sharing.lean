import Lox.Environment

/-!
Contract: environments are shared cells.

A forest is built by creating environments, inside environments that exist or inside none,
by defining values in them and by assigning through addresses. Which environment an address
leads to is settled when the environment from which it is seen is created. So two addresses
name one cell exactly if they lead to one environment and select one slot: what is assigned
through the one is read through the other, and nothing else changes.

Main statement: `Forest.Built.sharesCells`.

Owns: what reading sees of a change. Does not own: which addresses a program uses.
-/

set_option autoImplicit false

namespace Lox

namespace Forest

variable {α : Type}

/-! ## Single environments -/

/-- How many values an environment holds. -/
def slotCount (forest : Forest α) (ref : EnvironmentRef) : Nat :=
  ((forest.environments[ref]?).map fun environment => environment.slots.size).getD 0

theorem isSome_slot?_iff (forest : Forest α) (ref : EnvironmentRef) (slot : Nat) :
    (forest.slot? ref slot).isSome = true ↔ slot < forest.slotCount ref := by
  cases present : forest.environments[ref]? <;> simp [slot?, slotCount, present]

theorem enclosing?_create (forest : Forest α) (enclosing : Option EnvironmentRef)
    (values : Array α) (ref : EnvironmentRef) :
    (forest.create enclosing values).enclosing? ref =
      if ref = forest.next then enclosing else forest.enclosing? ref := by
  by_cases new : ref = forest.next
  · subst new
    simp [create, enclosing?, next]
  · have old : ref ≠ forest.environments.size := new
    simp [create, enclosing?, Array.getElem?_push, old, new]

theorem slot?_create (forest : Forest α) (enclosing : Option EnvironmentRef)
    (values : Array α) (ref : EnvironmentRef) (slot : Nat) :
    (forest.create enclosing values).slot? ref slot =
      if ref = forest.next then values[slot]? else forest.slot? ref slot := by
  by_cases new : ref = forest.next
  · subst new
    simp [create, slot?, next]
  · have old : ref ≠ forest.environments.size := new
    simp [create, slot?, Array.getElem?_push, old, new]

/-- A definition fills the first free slot of its environment, and nothing else. -/
theorem slot?_define {forest : Forest α} {ref : EnvironmentRef} (inside : ref < forest.next)
    (value : α) (other : EnvironmentRef) (slot : Nat) :
    (forest.define ref value).slot? other slot =
      if other = ref ∧ slot = forest.slotCount ref then some value
      else forest.slot? other slot := by
  by_cases same : ref = other
  · subst same
    have present := Array.getElem?_eq_getElem inside
    simp [define, slot?, slotCount, Array.getElem?_modify, present, Array.getElem?_push]
  · simp [define, slot?, Array.getElem?_modify, same, Ne.symm same]

theorem slotCount_define {forest : Forest α} {other : EnvironmentRef}
    (inside : other < forest.next) (ref : EnvironmentRef) (value : α) :
    (forest.define ref value).slotCount other =
      forest.slotCount other + if other = ref then 1 else 0 := by
  by_cases same : ref = other
  · subst same
    have present := Array.getElem?_eq_getElem inside
    simp [define, slotCount, Array.getElem?_modify, present]
  · simp [define, slotCount, Array.getElem?_modify, same, Ne.symm same]

theorem slotCount_create (forest : Forest α) (enclosing : Option EnvironmentRef)
    (values : Array α) (ref : EnvironmentRef) :
    (forest.create enclosing values).slotCount ref =
      if ref = forest.next then values.size else forest.slotCount ref := by
  by_cases new : ref = forest.next
  · subst new
    simp [create, slotCount, next]
  · have old : ref ≠ forest.environments.size := new
    simp [create, slotCount, Array.getElem?_push, old, new]

@[simp] theorem slotCount_assignAt (forest : Forest α) (ref other : EnvironmentRef)
    (depth slot : Nat) (value : α) :
    (forest.assignAt ref depth slot value).slotCount other = forest.slotCount other := by
  unfold assignAt
  split
  · rfl
  · next target _ =>
      by_cases same : target = other
      · subst same
        cases present : forest.environments[target]? <;>
          simp [setSlot, slotCount, Array.getElem?_modify, present]
      · simp [setSlot, slotCount, Array.getElem?_modify, same]

/-! ## Numbers of environments -/

@[simp] theorem next_create (forest : Forest α) (enclosing : Option EnvironmentRef)
    (values : Array α) : (forest.create enclosing values).next = forest.next + 1 := by
  simp [create, next]

@[simp] theorem next_define (forest : Forest α) (ref : EnvironmentRef) (value : α) :
    (forest.define ref value).next = forest.next := by
  simp [define, next]

@[simp] theorem next_assignAt (forest : Forest α) (ref : EnvironmentRef) (depth slot : Nat)
    (value : α) : (forest.assignAt ref depth slot value).next = forest.next := by
  unfold assignAt
  split
  · rfl
  · simp [setSlot, next]

/-! ## Addresses -/

/-- An environment stands inside an older one, or inside none. -/
def Rooted (forest : Forest α) : Prop :=
  ∀ ref outer, forest.enclosing? ref = some outer → outer < ref

/-- The way outwards leads to older environments. -/
theorem Rooted.le_of_ancestor? {forest : Forest α} (rooted : forest.Rooted)
    {ref target : EnvironmentRef} {depth : Nat}
    (leads : forest.ancestor? ref depth = some target) : target ≤ ref := by
  induction depth generalizing ref with
  | zero => exact Nat.le_of_eq (Option.some.inj leads).symm
  | succ depth inductionHypothesis =>
      obtain ⟨outer, encloses, further⟩ := Option.bind_eq_some_iff.mp leads
      exact Nat.le_trans (inductionHypothesis further) (Nat.le_of_lt (rooted ref outer encloses))

theorem ancestor?_create {forest : Forest α} (rooted : forest.Rooted)
    (enclosing : Option EnvironmentRef) (values : Array α) {ref : EnvironmentRef}
    (inside : ref < forest.next) (depth : Nat) :
    (forest.create enclosing values).ancestor? ref depth = forest.ancestor? ref depth := by
  induction depth generalizing ref with
  | zero => rfl
  | succ depth inductionHypothesis =>
      simp only [ancestor?, enclosing?_create, Nat.ne_of_lt inside, if_false]
      cases encloses : forest.enclosing? ref with
      | none => rfl
      | some outer =>
          exact inductionHypothesis (Nat.lt_trans (rooted ref outer encloses) inside)

@[simp] theorem ancestor?_define (forest : Forest α) (ref other : EnvironmentRef) (value : α)
    (depth : Nat) :
    (forest.define ref value).ancestor? other depth = forest.ancestor? other depth :=
  ancestor?_eq_of_enclosing? (fun _ => enclosing?_define forest ref _ value) other depth

@[simp] theorem ancestor?_setSlot (forest : Forest α) (ref other : EnvironmentRef) (slot : Nat)
    (value : α) (depth : Nat) :
    (forest.setSlot ref slot value).ancestor? other depth = forest.ancestor? other depth :=
  ancestor?_eq_of_enclosing? (fun _ => enclosing?_setSlot forest ref _ slot value) other depth

theorem enclosing?_assignAt (forest : Forest α) (ref other : EnvironmentRef) (depth slot : Nat)
    (value : α) :
    (forest.assignAt ref depth slot value).enclosing? other = forest.enclosing? other := by
  unfold assignAt
  split
  · rfl
  · exact enclosing?_setSlot forest _ other slot value

@[simp] theorem ancestor?_assignAt (forest : Forest α) (ref other : EnvironmentRef)
    (depth slot : Nat) (value : α) (steps : Nat) :
    (forest.assignAt ref depth slot value).ancestor? other steps = forest.ancestor? other steps :=
  ancestor?_eq_of_enclosing?
    (fun _ => enclosing?_assignAt forest ref _ depth slot value) other steps

/-- There is a value at an address if the way outwards is long enough and the slot is filled. -/
theorem isSome_getAt?_iff (forest : Forest α) (ref : EnvironmentRef) (depth slot : Nat) :
    (forest.getAt? ref depth slot).isSome = true ↔
      ∃ target, forest.ancestor? ref depth = some target ∧ slot < forest.slotCount target := by
  unfold getAt?
  cases forest.ancestor? ref depth with
  | none => simp
  | some target => simp [isSome_slot?_iff]

/-! ## What reading sees of a change -/

theorem getAt?_create {forest : Forest α} (rooted : forest.Rooted)
    (enclosing : Option EnvironmentRef) (values : Array α) {ref : EnvironmentRef}
    (inside : ref < forest.next) (depth slot : Nat) :
    (forest.create enclosing values).getAt? ref depth slot = forest.getAt? ref depth slot := by
  simp only [getAt?, ancestor?_create rooted enclosing values inside]
  cases leads : forest.ancestor? ref depth with
  | none => rfl
  | some target =>
      have old : target ≠ forest.next :=
        Nat.ne_of_lt (Nat.lt_of_le_of_lt (rooted.le_of_ancestor? leads) inside)
      simp [slot?_create, old]

theorem getAt?_define {forest : Forest α} {ref : EnvironmentRef} (inside : ref < forest.next)
    (value : α) (other : EnvironmentRef) (depth slot : Nat) :
    (forest.define ref value).getAt? other depth slot =
      if forest.ancestor? other depth = some ref ∧ slot = forest.slotCount ref then some value
      else forest.getAt? other depth slot := by
  simp only [getAt?, ancestor?_define]
  cases forest.ancestor? other depth with
  | none => simp
  | some target => simp [slot?_define inside]

theorem getAt?_assignAt {forest : Forest α} {ref target : EnvironmentRef} {depth slot : Nat}
    (leads : forest.ancestor? ref depth = some target) (filled : slot < forest.slotCount target)
    (value : α) (other : EnvironmentRef) (steps index : Nat) :
    (forest.assignAt ref depth slot value).getAt? other steps index =
      if forest.ancestor? other steps = some target ∧ index = slot then some value
      else forest.getAt? other steps index := by
  simp only [getAt?, ancestor?_assignAt]
  simp only [assignAt, leads]
  cases forest.ancestor? other steps with
  | none => simp
  | some reached =>
      by_cases same : reached = target ∧ index = slot
      · obtain ⟨rfl, rfl⟩ := same
        obtain ⟨old, present⟩ :=
          Option.isSome_iff_exists.mp ((isSome_slot?_iff forest reached index).mpr filled)
        simp [slot?_setSlot, present]
      · have apart : ¬ (target = reached ∧ slot = index) := by
          rintro ⟨rfl, rfl⟩
          exact same ⟨rfl, rfl⟩
        simp [slot?_setSlot, apart, same]

/-- A slot that is not filled is not set. -/
theorem setSlot_of_empty {forest : Forest α} {ref : EnvironmentRef} {slot : Nat}
    (empty : forest.slotCount ref ≤ slot) (value : α) :
    forest.setSlot ref slot value = forest := by
  have same (index : Nat) : (forest.setSlot ref slot value).environments[index]? =
      forest.environments[index]? := by
    by_cases here : ref = index
    · subst here
      cases present : forest.environments[ref]? with
      | none => simp [setSlot, Array.getElem?_modify, present]
      | some environment =>
          have beyond : environment.slots.size ≤ slot := by simpa [slotCount, present] using empty
          simp [setSlot, Array.getElem?_modify, present, Array.setIfInBounds_eq_of_size_le beyond]
    · simp [setSlot, Array.getElem?_modify, here]
  exact congrArg mk (Array.ext_getElem? same)

/-- Without a value at the address nothing is assigned. -/
theorem assignAt_of_absent {forest : Forest α} {ref : EnvironmentRef} {depth slot : Nat}
    (absent : forest.getAt? ref depth slot = none) (value : α) :
    forest.assignAt ref depth slot value = forest := by
  unfold assignAt
  split
  · rfl
  · next target leads =>
      refine setSlot_of_empty (Nat.le_of_not_lt fun filled => ?_) value
      have present := (isSome_getAt?_iff forest ref depth slot).mpr ⟨target, leads, filled⟩
      rw [absent] at present
      cases present

/-- A run tests whether there is a value and assigns it afterwards. Both at once is what one
assignment through the address does. -/
theorem assignAt?_eq (forest : Forest α) (ref : EnvironmentRef) (depth slot : Nat) (value : α) :
    forest.assignAt? ref depth slot value =
      if forest.reaches ref depth slot then some (forest.assignAt ref depth slot value)
      else none := by
  unfold assignAt? reaches getAt? assignAt
  cases forest.ancestor? ref depth with
  | none => rfl
  | some target =>
      cases present : forest.environments[target]? <;> simp [slot?, present]

theorem assignAt?_eq_some_iff {forest after : Forest α} {ref : EnvironmentRef} {depth slot : Nat}
    {value : α} :
    forest.assignAt? ref depth slot value = some after ↔
      (∃ target, forest.ancestor? ref depth = some target ∧ slot < forest.slotCount target) ∧
        forest.assignAt ref depth slot value = after := by
  rw [← isSome_getAt?_iff, assignAt?_eq, reaches]
  split <;> simp_all

/-! ## Histories -/

/-- What can be done to a forest. -/
inductive Change (α : Type) where
  | create (enclosing : Option EnvironmentRef) (values : Array α)
  | define (ref : EnvironmentRef) (value : α)
  | assign (ref : EnvironmentRef) (depth slot : Nat) (value : α)

/-- The change mentions environments that exist. -/
def Change.Possible (forest : Forest α) : Change α → Prop
  | .create enclosing _ => ∀ outer ∈ enclosing, outer < forest.next
  | .define ref _ => ref < forest.next
  | .assign ref _ _ _ => ref < forest.next

/-- The forest behind the change. -/
def Change.apply (forest : Forest α) : Change α → Forest α
  | .create enclosing values => forest.create enclosing values
  | .define ref value => forest.define ref value
  | .assign ref depth slot value => forest.assignAt ref depth slot value

/-- The one forest becomes the other by changes, one after the other. -/
inductive Becomes (before : Forest α) : Forest α → Prop
  | refl : Becomes before before
  | change {middle : Forest α} (becomes : Becomes before middle) (change : Change α)
      (possible : change.Possible middle) : Becomes before (change.apply middle)

/-- The forest is what changes make of the forest without environments. -/
def Built (forest : Forest α) : Prop := Becomes empty forest

variable {forest before after : Forest α}

theorem Rooted.apply (rooted : forest.Rooted) {change : Change α}
    (possible : change.Possible forest) : (change.apply forest).Rooted := by
  intro ref outer encloses
  cases change with
  | create enclosing values =>
      simp only [Change.apply, enclosing?_create] at encloses
      split at encloses
      · next new => exact new ▸ possible outer encloses
      · exact rooted ref outer encloses
  | define other value =>
      exact rooted ref outer (enclosing?_define forest other ref value ▸ encloses)
  | assign other depth slot value =>
      exact rooted ref outer (enclosing?_assignAt forest other ref depth slot value ▸ encloses)

theorem next_le_apply (forest : Forest α) (change : Change α) :
    forest.next ≤ (change.apply forest).next := by
  cases change <;> simp [Change.apply]

/-- No change redirects an address. -/
theorem ancestor?_apply (rooted : forest.Rooted) (change : Change α) {ref : EnvironmentRef}
    (inside : ref < forest.next) (depth : Nat) :
    (change.apply forest).ancestor? ref depth = forest.ancestor? ref depth := by
  cases change with
  | create enclosing values => exact ancestor?_create rooted enclosing values inside depth
  | define other value => exact ancestor?_define forest other ref value depth
  | assign other steps slot value =>
      exact ancestor?_assignAt forest other ref steps slot value depth

/-- What one change keeps, a history keeps. -/
theorem Becomes.kept (becomes : before.Becomes after) (rooted : before.Rooted) :
    after.Rooted ∧ before.next ≤ after.next ∧
      ∀ ref < before.next, ∀ depth, after.ancestor? ref depth = before.ancestor? ref depth := by
  induction becomes with
  | refl => exact ⟨rooted, Nat.le_refl _, fun _ _ _ => rfl⟩
  | @change middle _ change possible inductionHypothesis =>
      obtain ⟨rootedHere, grown, same⟩ := inductionHypothesis
      refine ⟨rootedHere.apply possible, Nat.le_trans grown (next_le_apply middle change), ?_⟩
      intro ref inside depth
      rw [ancestor?_apply rootedHere change (Nat.lt_of_lt_of_le inside grown), same ref inside]

theorem rooted_empty : (empty : Forest α).Rooted := by
  intro ref outer encloses
  simp [empty, enclosing?] at encloses

theorem Built.rooted (built : forest.Built) : forest.Rooted := (built.kept rooted_empty).1

/-! ## Sharing -/

/-- Addresses that lead to one environment and select one slot name one cell. -/
structure SharesCells (forest : Forest α) : Prop where
  /-- An assignment is what a run does in two steps: it tests whether there is a value, and if so
  replaces it. -/
  stepwise : ∀ ref depth slot value, forest.assignAt? ref depth slot value =
    if forest.reaches ref depth slot then some (forest.assignAt ref depth slot value) else none
  /-- An assignment succeeds exactly where there is a value: where the way outwards is long enough
  and the slot is filled. -/
  assignable : ∀ ref depth slot value,
    ((forest.assignAt? ref depth slot value).isSome = true ↔
      (forest.getAt? ref depth slot).isSome = true) ∧
    ((forest.getAt? ref depth slot).isSome = true ↔
      ∃ target, forest.ancestor? ref depth = some target ∧ slot < forest.slotCount target)
  /-- The value assigned is read through every address of the cell, and nothing else changes. -/
  assigned : ∀ ref depth slot value after, forest.assignAt? ref depth slot value = some after →
    ∀ other steps index, after.getAt? other steps index =
      if forest.ancestor? other steps = forest.ancestor? ref depth ∧ index = slot then some value
      else forest.getAt? other steps index
  /-- An assignment that fails changes nothing. -/
  refused : ∀ ref depth slot value, forest.assignAt? ref depth slot value = none →
    forest.assignAt ref depth slot value = forest
  /-- A definition fills one slot, the first that was free. -/
  defined : ∀ ref < forest.next, ∀ value other steps index,
    (forest.define ref value).getAt? other steps index =
      if forest.ancestor? other steps = some ref ∧ index = forest.slotCount ref then some value
      else forest.getAt? other steps index
  free : ∀ ref other steps, forest.ancestor? other steps = some ref →
    forest.getAt? other steps (forest.slotCount ref) = none
  /-- What there is stays as it is when an environment is created or a value defined. -/
  created : ∀ enclosing values, ∀ ref < forest.next, ∀ depth slot,
    (forest.create enclosing values).getAt? ref depth slot = forest.getAt? ref depth slot
  /-- A new environment holds its values, and its way outwards is that of the environment around. -/
  inside : ∀ enclosing, (∀ outer ∈ enclosing, outer < forest.next) → ∀ values depth slot,
    (forest.create enclosing values).getAt? forest.next 0 slot = values[slot]? ∧
    (forest.create enclosing values).ancestor? forest.next 0 = some forest.next ∧
    (forest.create enclosing values).ancestor? forest.next (depth + 1) =
      enclosing.bind fun outer => forest.ancestor? outer depth
  /-- Whatever happens later, an address leads where it led. -/
  settled : ∀ after, forest.Becomes after → ∀ ref < forest.next, ∀ depth,
    after.ancestor? ref depth = forest.ancestor? ref depth

/-- In whatever order environments are created, values defined and cells assigned, addresses share
cells as the environments to which they lead. -/
theorem Built.sharesCells (built : forest.Built) : forest.SharesCells where
  stepwise := forest.assignAt?_eq
  assignable ref depth slot value := by
    refine ⟨?_, isSome_getAt?_iff forest ref depth slot⟩
    rw [isSome_getAt?_iff, Option.isSome_iff_exists]
    simp only [assignAt?_eq_some_iff, exists_and_left, exists_eq', and_true]
  assigned ref depth slot value after succeeds other steps index := by
    obtain ⟨⟨target, leads, filled⟩, rfl⟩ := assignAt?_eq_some_iff.mp succeeds
    rw [leads]
    exact getAt?_assignAt leads filled value other steps index
  refused ref depth slot value fails := by
    refine assignAt_of_absent (Option.eq_none_iff_forall_not_mem.mpr fun old present => ?_) value
    have filled := (isSome_getAt?_iff forest ref depth slot).mp
      (Option.isSome_iff_exists.mpr ⟨old, present⟩)
    rw [assignAt?_eq_some_iff.mpr ⟨filled, rfl⟩] at fails
    cases fails
  defined ref inside value other steps index := getAt?_define inside value other steps index
  free ref other steps leads := by
    have empty := mt (isSome_slot?_iff forest ref (forest.slotCount ref)).mp (Nat.lt_irrefl _)
    simpa [getAt?, leads] using empty
  created enclosing values ref inside depth slot :=
    getAt?_create built.rooted enclosing values inside depth slot
  inside enclosing possible values depth slot := by
    refine ⟨?_, rfl, ?_⟩
    · simp [getAt?, ancestor?, slot?_create]
    · simp only [ancestor?, enclosing?_create, if_true]
      cases enclosing with
      | none => rfl
      | some outer => exact ancestor?_create built.rooted _ values (possible outer rfl) depth
  settled after becomes ref inside depth := (becomes.kept built.rooted).2.2 ref inside depth

/-- Two environments inside a third one, as of two closures around one variable. -/
def twoInside : Forest Nat :=
  (((empty.create none #[]).define 0 10).create (some 0) #[7]).create (some 0) #[8]

theorem built_twoInside : twoInside.Built := by
  have outer : Becomes empty (empty.create none #[] : Forest Nat) :=
    .change .refl (.create none #[]) (fun _ isNone => nomatch isNone)
  have defined := outer.change (.define 0 10) Nat.zero_lt_one
  have first := defined.change (.create (some 0) #[7])
    (by rintro _ ⟨⟩; decide)
  exact first.change (.create (some 0) #[8]) (by rintro _ ⟨⟩; decide)

/-- What is assigned from the one is read from the other and from outside; nothing else changes. -/
theorem sharesCells_twoInside :
    twoInside.Built ∧ ∃ after, twoInside.assignAt? 1 1 0 11 = some after ∧
      after.getAt? 2 1 0 = some 11 ∧ after.getAt? 0 0 0 = some 11 ∧
      after.getAt? 1 0 0 = some 7 ∧ after.getAt? 2 0 0 = some 8 := by
  have shares := built_twoInside.sharesCells
  have succeeds : (twoInside.assignAt? 1 1 0 11).isSome = true :=
    (shares.assignable 1 1 0 11).1.mpr (by decide)
  obtain ⟨after, assigned⟩ := Option.isSome_iff_exists.mp succeeds
  have reads := shares.assigned 1 1 0 11 after assigned
  refine ⟨built_twoInside, after, assigned, ?_, ?_, ?_, ?_⟩ <;> rw [reads] <;> decide

end Forest

end Lox
