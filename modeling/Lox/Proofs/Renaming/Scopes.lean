import Lox.Proofs.Binding.Bound
import Lox.Proofs.Binding.Cleared
import Lox.Proofs.Renaming.Tree

/-!
Contract: scopes in which one local variable has another name.

Marks fit the scopes of the pass if in each scope the marked entry, if there is one, bears the name
that is replaced. Where no entry bears the fresh name, a name that is replaced in the same way has
the same address, is as ready as before, and is declared and made ready alike. For `this`, `super`
and globals nothing is replaced.

Owns: renamed scopes, and steps of the pass in them. Does not own: trees.
-/

set_option autoImplicit false

namespace Lox

namespace Binding

variable {naming : Renaming}

/-! ## Entries -/

/-- The entry under the fresh name, if it is marked. -/
def Local.renamed (naming : Renaming) (marked : Bool) (entry : Local) : Local :=
  { entry with name := naming.word marked entry.name }

/-- The marked entries of a scope under the fresh name. -/
def Scope.renamed (naming : Renaming) (marks : List Bool) (scope : Scope) : Scope :=
  marks.zipWith (Local.renamed naming) scope

/-- The marked entries of scopes under the fresh name. -/
def renamedScopes (naming : Renaming) (marks : Marks) (scopes : List Scope) : List Scope :=
  marks.zipWith (Scope.renamed naming) scopes

/-- In the scope either the entries with the name of the target are marked, or none is. -/
structure Scope.Fits (naming : Renaming) (marks : List Bool) (scope : Scope) : Prop where
  marked : ∃ chosen : Bool, (chosen = true → Plain naming.target.text) ∧
    marks = scope.map fun entry => chosen && entry.name == naming.target.text
  lacks : ∀ entry ∈ scope, entry.name ≠ naming.fresh

/-- The marks fit the scopes, one by one. -/
def Fits (naming : Renaming) : Marks → List Scope → Prop
  | [], [] => True
  | marks :: outerMarks, scope :: outer => scope.Fits naming marks ∧ Fits naming outerMarks outer
  | _, _ => False

/-- The entry under the fresh name, if it bears that of the target and that is chosen. -/
def Local.chosen (naming : Renaming) (chosen : Bool) (entry : Local) : Local :=
  entry.renamed naming (chosen && entry.name == naming.target.text)

/-- A replaced name is that of a replaced entry exactly if the name is that of the entry. -/
theorem Local.chosen_name_beq {entry : Local} {text : String} {chosen replaced : Bool}
    (entryLacks : entry.name ≠ naming.fresh) (lacks : text ≠ naming.fresh)
    (only : replaced = true → text = naming.target.text)
    (agrees : entry.name = text → replaced = (chosen && text == naming.target.text)) :
    ((entry.chosen naming chosen).name == naming.word replaced text) = (entry.name == text) := by
  by_cases same : entry.name = text
  · simp [Local.chosen, Local.renamed, same, agrees same]
  · rw [beq_eq_false_iff_ne.mpr same, beq_eq_false_iff_ne]
    intro equal
    simp only [Local.chosen, Local.renamed, Renaming.word] at equal
    split at equal
    · next marked =>
        split at equal
        · next isReplaced =>
            simp only [Bool.and_eq_true, beq_iff_eq] at marked
            exact same (marked.2.trans (only isReplaced).symm)
        · exact lacks equal.symm
    · split at equal
      · exact entryLacks equal
      · exact same equal

/-! ## One scope -/

namespace Scope

variable {marks : List Bool} {scope : Scope}

theorem slot?_name {text : String} {slot : Nat} (found : scope.slot? text = some slot) :
    ∃ entry, scope[slot]? = some entry ∧ entry.name = text := by
  obtain ⟨inside, named, _⟩ := List.findIdx?_eq_some_iff_getElem.mp found
  exact ⟨scope[slot], List.getElem?_eq_getElem inside, beq_iff_eq.mp named⟩

theorem slot?_eq_none_iff {text : String} :
    scope.slot? text = none ↔ ∀ entry ∈ scope, entry.name ≠ text := by
  simp [Scope.slot?, List.findIdx?_eq_none_iff]

theorem renamed_map {chosen : Bool} (scope : Scope) :
    scope.renamed naming (scope.map fun entry => chosen && entry.name == naming.target.text) =
      scope.map (Local.chosen naming chosen) := by
  rw [Scope.renamed, List.zipWith_map_left, List.zipWith_self]
  rfl

theorem slot?_declare {text : String} (undeclared : scope.slot? text = none) :
    (scope.declare text).slot? text = some scope.length := by
  have before : scope.findIdx? (·.name == text) = none := undeclared
  simp [Scope.slot?, Scope.declare, List.findIdx?_append, before, List.findIdx?_cons]

theorem Fits.getD_of_slot? (fits : scope.Fits naming marks) {text : String} {slot : Nat}
    (found : scope.slot? text = some slot) (marked : marks.getD slot false = true) :
    text = naming.target.text ∧ Plain naming.target.text := by
  obtain ⟨⟨chosen, plain, rfl⟩, _⟩ := fits
  obtain ⟨entry, present, rfl⟩ := slot?_name found
  simp only [List.getD_eq_getElem?_getD, List.getElem?_map, present, Option.map_some,
    Option.getD_some, Bool.and_eq_true, beq_iff_eq] at marked
  exact ⟨marked.2, plain marked.1⟩

/-- The renamed scope lists its entries under their names now, and a name that is replaced as its
entry is finds the same entries. -/
theorem Fits.renamed_eq_map (fits : scope.Fits naming marks) {text : String}
    (lacks : text ≠ naming.fresh) {replaced : Bool}
    (only : replaced = true → text = naming.target.text)
    (agrees : ∀ slot, scope.slot? text = some slot → marks.getD slot false = replaced) :
    ∃ chosen : Bool,
      (marks = scope.map fun entry => chosen && entry.name == naming.target.text) ∧
      scope.renamed naming marks = scope.map (Local.chosen naming chosen) ∧
      ∀ entry ∈ scope,
        ((entry.chosen naming chosen).name == naming.word replaced text) =
          (entry.name == text) := by
  obtain ⟨⟨chosen, _, rfl⟩, absent⟩ := fits
  refine ⟨chosen, rfl, renamed_map scope, fun entry member => ?_⟩
  refine Local.chosen_name_beq (absent entry member) lacks only fun same => ?_
  cases found : scope.slot? text with
  | none => exact absurd same (slot?_eq_none_iff.mp found entry member)
  | some slot =>
      obtain ⟨other, present, named⟩ := slot?_name found
      have marked := agrees slot found
      simp only [List.getD_eq_getElem?_getD, List.getElem?_map, present, Option.map_some,
        Option.getD_some, named] at marked
      exact marked.symm

section Replaced

variable (fits : scope.Fits naming marks) {text : String} (lacks : text ≠ naming.fresh)
  {replaced : Bool} (only : replaced = true → text = naming.target.text)
  (agrees : ∀ slot, scope.slot? text = some slot → marks.getD slot false = replaced)
include fits lacks only agrees

theorem Fits.slot?_renamed :
    (scope.renamed naming marks).slot? (naming.word replaced text) = scope.slot? text := by
  obtain ⟨chosen, _, same, names⟩ := fits.renamed_eq_map lacks only agrees
  have found (scope : Scope) (text : String) :
      scope.slot? text = (scope.map (·.name == text)).findIdx? id := by
    rw [List.findIdx?_map]
    rfl
  rw [same, found, found, List.map_map]
  exact congrArg _ (List.map_congr_left names)

theorem Fits.isPending_renamed :
    (scope.renamed naming marks).isPending (naming.word replaced text) = scope.isPending text := by
  obtain ⟨chosen, _, same, names⟩ := fits.renamed_eq_map lacks only agrees
  have pends (scope : Scope) (text : String) : scope.isPending text =
      (scope.map fun entry => entry.name == text && !entry.ready).any id := by
    rw [List.any_map]
    rfl
  rw [same, pends, pends, List.map_map]
  refine congrArg (List.any · id) (List.map_congr_left fun entry member => ?_)
  exact congrArg (· && !entry.ready) (names entry member)

theorem Fits.define_renamed :
    (scope.renamed naming marks).define (naming.word replaced text) =
      (scope.define text).renamed naming marks := by
  obtain ⟨chosen, marked, same, names⟩ := fits.renamed_eq_map lacks only agrees
  have kept : marks = (scope.define text).map fun entry =>
      chosen && entry.name == naming.target.text := by
    rw [marked, Scope.define, List.map_map]
    refine List.map_congr_left fun entry _ => ?_
    simp only [Function.comp]
    split <;> rfl
  rw [same, kept, renamed_map, Scope.define, Scope.define, List.map_map, List.map_map]
  refine List.map_congr_left fun entry member => ?_
  simp only [Function.comp, names entry member]
  split <;> rfl

end Replaced

/-- What is ready does not matter to the marks. -/
theorem Fits.define (fits : scope.Fits naming marks) (text : String) :
    (scope.define text).Fits naming marks := by
  have names : (scope.define text).map Local.name = scope.map Local.name := by
    simp only [Scope.define, List.map_map]
    refine List.map_congr_left fun entry _ => ?_
    simp only [Function.comp]
    split <;> rfl
  obtain ⟨⟨chosen, plain, rfl⟩, lacks⟩ := fits
  have listed (scope : Scope) :
      (scope.map fun entry => chosen && entry.name == naming.target.text) =
        (scope.map Local.name).map fun name => chosen && name == naming.target.text := by
    rw [List.map_map]
    rfl
  refine ⟨⟨chosen, plain, ?_⟩, fun entry member => ?_⟩
  · rw [listed, listed, names]
  · have among : entry.name ∈ scope.map Local.name := names ▸ List.mem_map_of_mem member
    obtain ⟨other, present, named⟩ := List.mem_map.mp among
    exact named ▸ lacks other present

/-- A name that the scope does not declare yet may be declared in it, marked if it is the target. -/
theorem Fits.declare (fits : scope.Fits naming marks) {text : String}
    (lacks : text ≠ naming.fresh) {marked : Bool}
    (target : marked = true → text = naming.target.text ∧ Plain naming.target.text)
    (undeclared : scope.slot? text = none) :
    (scope.declare text).Fits naming (marks ++ [marked]) ∧
      (scope.declare text).renamed naming (marks ++ [marked]) =
        (scope.renamed naming marks).declare (naming.word marked text) := by
  obtain ⟨⟨chosen, plain, rfl⟩, absent⟩ := fits
  have others := slot?_eq_none_iff.mp undeclared
  refine ⟨⟨?_, fun entry member => ?_⟩, ?_⟩
  · by_cases same : text = naming.target.text
    · -- The name of the target was not in the scope before, and nothing there was marked.
      refine ⟨marked, fun isMarked => (target isMarked).2, ?_⟩
      have unmarked : ∀ entry ∈ scope, (chosen && entry.name == naming.target.text) =
          (marked && entry.name == naming.target.text) := by
        intro entry member
        have other : (entry.name == naming.target.text) = false :=
          beq_eq_false_iff_ne.mpr (same ▸ others entry member)
        simp only [other, Bool.and_false]
      rw [List.map_congr_left unmarked]
      simp [Scope.declare, same]
    · refine ⟨chosen, plain, ?_⟩
      have unmarked : marked = false := by
        cases marked with
        | true => exact absurd (target rfl).1 same
        | false => rfl
      simp [Scope.declare, same, unmarked]
  · rcases List.mem_append.mp member with old | new
    · exact absent entry old
    · rw [List.mem_singleton.mp new]
      exact lacks
  · simp [Scope.renamed, Scope.declare, List.zipWith_append, Local.renamed]

theorem Fits.length (fits : scope.Fits naming marks) : marks.length = scope.length := by
  obtain ⟨⟨chosen, _, rfl⟩, _⟩ := fits
  exact List.length_map _

end Scope

/-! ## Scopes in view -/

/-- Whether a name leads to the renamed declaration. -/
def hits (marks : Marks) (scopes : List Scope) (text : String) : Bool :=
  (address? text scopes).any marks.hit

theorem hits_of_slot? {marks : List Bool} {outerMarks : Marks} {scope : Scope} {outer : List Scope}
    {text : String} {slot : Nat} (found : scope.slot? text = some slot) :
    hits (marks :: outerMarks) (scope :: outer) text = marks.getD slot false := by
  simp [hits, address?, found, Marks.hit]

theorem hits_of_undeclared {marks : List Bool} {outerMarks : Marks} {scope : Scope}
    {outer : List Scope} {text : String} (absent : scope.slot? text = none) :
    hits (marks :: outerMarks) (scope :: outer) text = hits outerMarks outer text := by
  simp only [hits, address?, absent]
  cases address? text outer <;> rfl

namespace Fits

variable {marks : Marks} {scopes : List Scope}

/-- Only the name of the target is replaced. -/
theorem only (fits : Fits naming marks scopes) {text : String}
    (hit : hits marks scopes text = true) :
    text = naming.target.text ∧ Plain naming.target.text := by
  induction scopes generalizing marks with
  | nil => cases hit
  | cons scope outer inductionHypothesis =>
      cases marks with
      | nil => exact fits.elim
      | cons inner outerMarks =>
          cases found : scope.slot? text with
          | some slot => exact fits.1.getD_of_slot? found ((hits_of_slot? found).symm.trans hit)
          | none =>
              rw [hits_of_undeclared found] at hit
              exact inductionHypothesis fits.2 hit

/-- In the innermost scope a name is replaced as its entry is. -/
theorem agrees {inner : List Bool} (scope : Scope) (outer : List Scope) (text : String) (slot : Nat)
    (found : scope.slot? text = some slot) :
    inner.getD slot false = hits (inner :: marks) (scope :: outer) text :=
  (hits_of_slot? found).symm

/-- A name that is replaced as it must be has the same address. -/
theorem address?_renamed (fits : Fits naming marks scopes) {text : String}
    (lacks : text ≠ naming.fresh) :
    address? (naming.word (hits marks scopes text) text) (renamedScopes naming marks scopes) =
      address? text scopes := by
  induction scopes generalizing marks with
  | nil => cases marks <;> rfl
  | cons scope outer inductionHypothesis =>
      cases marks with
      | nil => exact fits.elim
      | cons inner outerMarks =>
          have slots := fits.1.slot?_renamed lacks (fun hit => (fits.only hit).1)
            (agrees scope outer text)
          have outside := inductionHypothesis fits.2
          simp only [renamedScopes, List.zipWith_cons_cons, address?, slots]
          cases found : scope.slot? text with
          | some slot => rfl
          | none =>
              rw [hits_of_undeclared found]
              exact congrArg (Option.map inward) outside

end Fits

/-- The innermost scope is closed, whatever the statements in it have declared. -/
theorem Fits.closed {marks : Marks} {inner : List Bool} {scopes : List Scope} (stmts : List Stmt)
    (fits : Fits naming (marksAfterStmts naming (inner :: marks) stmts) scopes) :
    Fits naming marks scopes.tail ∧
      (renamedScopes naming (marksAfterStmts naming (inner :: marks) stmts) scopes).tail =
        renamedScopes naming marks scopes.tail := by
  have outside : (marksAfterStmts naming (inner :: marks) stmts).tail = marks :=
    tail_marksAfterStmts naming (inner :: marks) stmts
  rw [renamedScopes, List.tail_zipWith, outside]
  refine ⟨?_, rfl⟩
  cases after : marksAfterStmts naming (inner :: marks) stmts with
  | nil =>
      rw [after] at fits outside
      cases scopes with
      | nil => exact outside ▸ trivial
      | cons => exact fits.elim
  | cons =>
      rw [after] at fits outside
      cases scopes with
      | nil => exact fits.elim
      | cons => exact outside ▸ fits.2

/-! ## Steps of the pass -/

end Binding

open Binding

/-- What the pass knows where the local variable has its fresh name. -/
def Resolver.renamed (naming : Renaming) (marks : Marks) (resolver : Resolver) : Resolver :=
  { resolver with scopes := renamedScopes naming marks resolver.scopes }

/-- At top level there are no scopes. -/
theorem Resolver.renamed_of_top (naming : Renaming) (marks : Marks) {resolver : Resolver}
    (top : resolver.scopes = []) : resolver.renamed naming marks = resolver := by
  obtain ⟨scopes, _, _, _, _, _⟩ := resolver
  obtain rfl : scopes = [] := top
  simp [Resolver.renamed, renamedScopes]

namespace Binding

variable {naming : Renaming} {marks : Marks} {before after : Resolver}

theorem inOwnInitializer_renamed {resolver : Resolver} (fits : Fits naming marks resolver.scopes)
    {text : String} (lacks : text ≠ naming.fresh) :
    inOwnInitializer (resolver.renamed naming marks)
        (naming.word (hits marks resolver.scopes text) text) = inOwnInitializer resolver text := by
  unfold inOwnInitializer Resolver.renamed
  cases inside : resolver.scopes with
  | nil =>
      cases marks <;> rfl
  | cons scope outer =>
      rw [inside] at fits
      cases marks with
      | nil => exact fits.elim
      | cons inner outerMarks =>
          exact fits.1.isPending_renamed lacks (fun hit => (fits.only hit).1)
            (Fits.agrees scope outer text)

/-- A declaration under the fresh name, if it is marked and not at top level. -/
theorem declare_renamed {name : Name} {found : Unit} {marked : Bool}
    (yields : Yields (declare name) before found after) (accepted : after.errors = [])
    (fits : Fits naming marks before.scopes) (lacks : name.text ≠ naming.fresh)
    (target : marked = true → name.text = naming.target.text ∧ Plain naming.target.text) :
    Yields (declare (name.renamed naming (!marks.isEmpty && marked)))
        (before.renamed naming marks) found (after.renamed naming (marks.declare marked)) ∧
      Fits naming (marks.declare marked) after.scopes ∧
      hits (marks.declare marked) after.scopes name.text = (!marks.isEmpty && marked) := by
  simp only [declare, yields_bind, yields_get] at yields ⊢
  obtain ⟨_, _, ⟨rfl, rfl⟩, yields⟩ := yields
  cases inside : before.scopes with
  | nil =>
      rw [inside] at fits yields
      cases marks with
      | cons => exact fits.elim
      | nil =>
          rw [yields_set] at yields
          subst yields
          refine ⟨⟨_, _, ⟨rfl, rfl⟩, ?_⟩, trivial, rfl⟩
          simp [Resolver.renamed, renamedScopes, inside, Marks.declare, Name.renamed, Renaming.word]
  | cons scope outer =>
      rw [inside] at fits yields
      cases marks with
      | nil => exact fits.elim
      | cons inner outerMarks =>
          simp only at yields
          split at yields
          · rw [yields_report] at yields
            subst yields
            simp at accepted
          · next undeclared =>
              rw [yields_set] at yields
              subst yields
              have absent : scope.slot? name.text = none := by simpa using undeclared
              obtain ⟨fitsScope, same⟩ := fits.1.declare lacks target absent
              have absentThere : (scope.renamed naming inner).slot?
                  (naming.word marked name.text) = none :=
                (fits.1.slot?_renamed lacks (fun isMarked => (target isMarked).1)
                  (by simp [absent])).trans absent
              refine ⟨⟨_, _, ⟨rfl, rfl⟩, ?_⟩, ⟨fitsScope, fits.2⟩, ?_⟩
              · simp [Resolver.renamed, renamedScopes, inside, Marks.declare, Name.renamed, same,
                  absentThere]
              · simp [Marks.declare, hits_of_slot? (Scope.slot?_declare absent), ← fits.1.length]

/-- A name is made ready as it is used. -/
theorem define_renamed {name : Name} {found : Unit}
    (yields : Yields (define name) before found after)
    (fits : Fits naming marks before.scopes) (lacks : name.text ≠ naming.fresh) :
    Yields (define (name.renamed naming (hits marks before.scopes name.text)))
        (before.renamed naming marks) found (after.renamed naming marks) ∧
      Fits naming marks after.scopes := by
  simp only [define, yields_modify] at yields ⊢
  subst yields
  cases inside : before.scopes with
  | nil =>
      rw [inside] at fits
      cases marks with
      | cons => exact fits.elim
      | nil =>
          refine ⟨?_, by simpa [inside] using fits⟩
          simp [Resolver.renamed, renamedScopes, inside, hits, address?, Name.renamed,
            Renaming.word]
  | cons scope outer =>
      rw [inside] at fits
      cases marks with
      | nil => exact fits.elim
      | cons inner outerMarks =>
          have same := fits.1.define_renamed lacks (fun hit => (fits.only hit).1)
            (Fits.agrees scope outer name.text)
          refine ⟨?_, fits.1.define name.text, fits.2⟩
          simp [Resolver.renamed, renamedScopes, inside, Name.renamed, same]

/-- A name that is declared and at once made ready. -/
theorem announce_renamed {name : Name} {found : Unit} {marked : Bool}
    (yields : Yields (do declare name; define name) before found after)
    (accepted : after.errors = []) (fits : Fits naming marks before.scopes)
    (lacks : name.text ≠ naming.fresh)
    (target : marked = true → name.text = naming.target.text ∧ Plain naming.target.text) :
    let renamed := name.renamed naming (!marks.isEmpty && marked)
    Yields (do declare renamed; define renamed) (before.renamed naming marks) found
        (after.renamed naming (marks.declare marked)) ∧
      Fits naming (marks.declare marked) after.scopes := by
  intro renamed
  obtain ⟨_, declared, declares, defines⟩ := yields_bind.mp yields
  obtain ⟨declaresThere, fitsDeclared, hit⟩ := declare_renamed declares
    ((steady_define name defines).accepted accepted) fits lacks target
  obtain ⟨definesThere, fitsDefined⟩ := define_renamed defines fitsDeclared lacks
  rw [hit] at definesThere
  exact ⟨yields_bind.mpr ⟨_, _, declaresThere, definesThere⟩, fitsDefined⟩

/-- Functions and classes keep their names. -/
theorem announce_kept {name : Name} {found : Unit}
    (yields : Yields (do declare name; define name) before found after)
    (accepted : after.errors = []) (fits : Fits naming marks before.scopes)
    (lacks : name.text ≠ naming.fresh) :
    Yields (do declare name; define name) (before.renamed naming marks) found
        (after.renamed naming (marks.declare false)) ∧
      Fits naming (marks.declare false) after.scopes := by
  have announced := announce_renamed yields accepted fits lacks
    (fun marked : false = true => absurd marked Bool.false_ne_true)
  simp only [Bool.and_false, Name.renamed_false] at announced
  exact announced

theorem declareParameters_renamed {parameters : List Name} {found : Unit} {inner : List Bool}
    (yields : Yields (declareParameters parameters) before found after)
    (accepted : after.errors = []) (fits : Fits naming (inner :: marks) before.scopes)
    (lack : ∀ parameter ∈ parameters, parameter.text ≠ naming.fresh)
    (plain : ∀ parameter ∈ parameters, Plain parameter.text) :
    Yields (declareParameters (parameters.map (Name.renamedParameter naming)))
        (before.renamed naming (inner :: marks)) found
        (after.renamed naming ((inner ++ parameters.map naming.hits) :: marks)) ∧
      Fits naming ((inner ++ parameters.map naming.hits) :: marks) after.scopes := by
  induction parameters generalizing before inner with
  | nil =>
      obtain ⟨_, rfl⟩ := yields_pure.mp yields
      simpa [declareParameters] using fits
  | cons parameter rest inductionHypothesis =>
      simp only [declareParameters, yields_bind] at yields
      obtain ⟨_, declared, declares, _, defined, defines, others⟩ := yields
      have announces : Yields (do declare parameter; define parameter) before () defined :=
        yields_bind.mpr ⟨_, _, declares, defines⟩
      have isPlain := plain parameter List.mem_cons_self
      obtain ⟨announcesThere, fitsThere⟩ := announce_renamed announces
        ((steady_declareParameters rest others).accepted accepted) fits
        (lack parameter List.mem_cons_self)
        (fun hit => ⟨naming.text_of_hits hit, naming.text_of_hits hit ▸ isPlain⟩)
      obtain ⟨_, _, declaresThere, definesThere⟩ := yields_bind.mp announcesThere
      obtain ⟨othersThere, fitsAfter⟩ := inductionHypothesis others fitsThere
        (fun other member => lack other (List.mem_cons_of_mem _ member))
        (fun other member => plain other (List.mem_cons_of_mem _ member))
      simp only [List.append_assoc, List.cons_append, List.nil_append] at othersThere fitsAfter
      refine ⟨?_, fitsAfter⟩
      simp only [List.map_cons, declareParameters, yields_bind]
      exact ⟨_, _, declaresThere, _, _, definesThere, othersThere⟩

/-! ## Uses -/

theorem lookUp_renamed {text : String} {found : Option Address}
    (yields : Yields (lookUp text none) before found after)
    (fits : Fits naming marks before.scopes) (lacks : text ≠ naming.fresh) :
    Yields (lookUp (naming.word (found.any marks.hit) text) none) (before.renamed naming marks)
      found (after.renamed naming marks) := by
  obtain ⟨rfl, rfl⟩ := yields_lookUp.mp yields
  rw [Option.or_none, yields_lookUp, Option.or_none]
  exact ⟨fits.address?_renamed lacks, rfl⟩

/-- The words for receivers are looked up as they are. -/
theorem lookUp_kept {text : String} {found : Option Address}
    (yields : Yields (lookUp text none) before found after)
    (fits : Fits naming marks before.scopes) (lacks : text ≠ naming.fresh)
    (reserved : ¬ Plain text) :
    Yields (lookUp text none) (before.renamed naming marks) found (after.renamed naming marks) := by
  have same := lookUp_renamed yields fits lacks
  obtain ⟨rfl, _⟩ := yields_lookUp.mp yields
  have kept : ((address? text before.scopes).or none).any marks.hit = false := by
    rw [Option.or_none]
    refine eq_false_of_ne_true fun hit => ?_
    obtain ⟨target, plain⟩ := fits.only hit
    exact reserved (target ▸ plain)
  rwa [kept] at same

theorem readVariable_renamed {reference found : Reference}
    (yields : Yields (readVariable reference) before found after) (accepted : after.errors = [])
    (unbound : reference.Unbound) (fits : Fits naming marks before.scopes)
    (lacks : reference.name.text ≠ naming.fresh) :
    Yields (readVariable (found.renamed naming marks).cleared) (before.renamed naming marks)
      (found.renamed naming marks) (after.renamed naming marks) := by
  simp only [readVariable, unbound.1, yields_bind, yields_get, yields_reportIf,
    yields_pure] at yields
  obtain ⟨_, _, ⟨rfl, rfl⟩, _, _, rfl, address, _, lookedUp, rfl, rfl⟩ := yields
  have lookedUpThere := lookUp_renamed lookedUp fits lacks
  obtain ⟨same, rfl⟩ := yields_lookUp.mp lookedUp
  have ready : inOwnInitializer before reference.name.text = false := by
    cases own : inOwnInitializer before reference.name.text with
    | true => simp [own] at accepted
    | false => rfl
  have readyThere : inOwnInitializer (before.renamed naming marks)
      (naming.word (address.any marks.hit) reference.name.text) = false := by
    rw [← same, Option.or_none]
    exact (inOwnInitializer_renamed fits lacks).trans ready
  have reports (lexeme : String) : Yields (reportIf (inOwnInitializer (before.renamed naming marks)
      (naming.word (address.any marks.hit) reference.name.text)) .ownInitializer lexeme
        reference.name.span) (before.renamed naming marks) () (before.renamed naming marks) := by
    simp [readyThere]
  simp only [ready, Bool.false_eq_true, if_false, List.append_nil] at lookedUpThere ⊢
  simp only [readVariable, yields_bind, yields_get, yields_pure]
  exact ⟨_, _, ⟨rfl, rfl⟩, _, _, reports _, _, _, lookedUpThere, rfl, rfl⟩

/-- A scope with an implicit name is not marked. -/
theorem Fits.implicit {scopes : List Scope} (fits : Fits naming marks scopes) {text : String}
    (lacks : text ≠ naming.fresh) :
    Fits naming ([false] :: marks) (Scope.implicit text :: scopes) :=
  ⟨⟨⟨false, by simp, rfl⟩, by simpa [Scope.implicit] using lacks⟩, fits⟩

/-- So is a scope in which nothing is declared. -/
theorem Fits.opened {scopes : List Scope} (fits : Fits naming marks scopes) :
    Fits naming ([] :: marks) ([] :: scopes) :=
  ⟨⟨⟨false, by simp, rfl⟩, by simp⟩, fits⟩

theorem this_ne_fresh (naming : Renaming) : "this" ≠ naming.fresh :=
  (plain_ne_this naming.plain).symm

theorem super_ne_fresh (naming : Renaming) : "super" ≠ naming.fresh :=
  (plain_ne_super naming.plain).symm

theorem readThis_renamed {address found : Option Address} {span : Span}
    (yields : Yields (readThis address span) before found after) (accepted : after.errors = [])
    (unbound : address = none) (fits : Fits naming marks before.scopes) :
    Yields (readThis none span) (before.renamed naming marks) found
      (after.renamed naming marks) := by
  subst unbound
  simp only [readThis, yields_bind, yields_get] at yields ⊢
  obtain ⟨_, _, ⟨rfl, rfl⟩, yields⟩ := yields
  refine ⟨_, _, ⟨rfl, rfl⟩, ?_⟩
  have sameKind : (before.renamed naming marks).classKind = before.classKind := rfl
  rw [sameKind]
  split at yields
  · simp only [yields_bind, yields_report, yields_pure] at yields
    obtain ⟨_, _, rfl, _, rfl⟩ := yields
    simp at accepted
  · next inClass =>
      rw [if_neg inClass]
      exact lookUp_kept yields fits (this_ne_fresh naming) (by decide)

theorem readSuper_renamed {address found : Option Address} {span : Span}
    (yields : Yields (readSuper address span) before found after) (accepted : after.errors = [])
    (unbound : address = none) (fits : Fits naming marks before.scopes) :
    Yields (readSuper none span) (before.renamed naming marks) found
      (after.renamed naming marks) := by
  subst unbound
  simp only [readSuper, yields_bind, yields_get] at yields ⊢
  obtain ⟨_, _, ⟨rfl, rfl⟩, yields⟩ := yields
  refine ⟨_, _, ⟨rfl, rfl⟩, ?_⟩
  have sameKind : (before.renamed naming marks).classKind = before.classKind := rfl
  rw [sameKind]
  split at yields
  · simp only [yields_bind, yields_report, yields_lookUp] at yields
    obtain ⟨_, _, rfl, _, rfl⟩ := yields
    simp at accepted
  · simp only [yields_bind, yields_report, yields_lookUp] at yields
    obtain ⟨_, _, rfl, _, rfl⟩ := yields
    simp at accepted
  · exact lookUp_kept yields fits (super_ne_fresh naming) (by decide)

/-- A class that did not inherit from itself does not do so now. -/
theorem readSuperclass_renamed {className : Name} {superclass found : Option Reference}
    (yields : Yields (readSuperclass className superclass) before found after)
    (accepted : after.errors = []) (unbound : ∀ reference ∈ superclass, reference.Unbound)
    (fits : Fits naming marks before.scopes) (lacksClass : className.text ≠ naming.fresh)
    (lack : ∀ reference ∈ superclass, reference.name.text ≠ naming.fresh) :
    let inside := if found.isSome then [false] :: marks else marks
    Yields (readSuperclass className
        ((found.map (Reference.renamed naming marks)).map Reference.cleared))
        (before.renamed naming marks) (found.map (Reference.renamed naming marks))
        (after.renamed naming inside) ∧
      Fits naming inside after.scopes := by
  cases superclass with
  | none =>
      obtain ⟨rfl, rfl⟩ := yields_pure.mp yields
      exact ⟨yields_pure.mpr ⟨rfl, rfl⟩, fits⟩
  | some reference =>
      simp only [readSuperclass, yields_bind, yields_reportIf, yields_modify, yields_openScope,
        yields_pure] at yields
      obtain ⟨_, _, rfl, _, _, rfl, bound, read, reads, _, _, rfl, rfl, rfl⟩ := yields
      have readsThere := readVariable_renamed reads accepted (unbound reference rfl) fits
        (lack reference rfl)
      obtain ⟨more, rfl⟩ := quiet_readVariable reference reads
      have other : (reference.name.text == className.text) = false := by
        cases own : reference.name.text == className.text with
        | true => simp [own] at accepted
        | false => rfl
      have sameName : bound.cleared.name = reference.name :=
        congrArg Reference.name (cleared_readVariable reads (unbound reference rfl))
      have otherThere : ((bound.renamed naming marks).name.text == className.text) = false := by
        rw [beq_eq_false_iff_ne] at other ⊢
        intro same
        change naming.word _ bound.cleared.name.text = _ at same
        rw [sameName, Renaming.word] at same
        split at same
        · exact lacksClass same.symm
        · exact other same
      have differs (lexeme : String) (span : Span) :
          Yields (reportIf ((bound.renamed naming marks).name.text == className.text)
            .inheritsFromItself lexeme span) (before.renamed naming marks) ()
            (before.renamed naming marks) := by
        simp [otherThere]
      simp only [other, Bool.false_eq_true, if_false, List.append_nil] at readsThere ⊢
      refine ⟨?_, fits.implicit (super_ne_fresh naming)⟩
      simp only [Option.map_some, readSuperclass, yields_bind, yields_modify, yields_openScope,
        yields_pure]
      exact ⟨_, _, differs _ _, (), _, rfl, _, _, readsThere, (), _, rfl, rfl, rfl⟩

end Binding

end Lox
