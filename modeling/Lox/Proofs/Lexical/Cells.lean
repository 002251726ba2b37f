import Lox.Proofs.Lexical.World

/-!
Contract: the cells of one activation, as a row of slots.

The declarations of a scope are reached in order, and the next one only when the one
before it is done. So the cells of an activation are filled from the front, and at
most the last one is empty. Such cells are `laidOut`, and the slot with the number of
a name holds what the cell of the name holds.

Owns: rows of cells, and what reading and filling a cell does to the row. Does not
own: that the cells of a run are laid out.
-/

set_option autoImplicit false

namespace Lox

/-! ## Insertion -/

namespace Table

variable {α : Type}

theorem insertIn_append {name : String} {front : List (String × α)}
    (absent : name ∉ front.map Prod.fst) (value : α) (back : List (String × α)) :
    insertIn name value (front ++ back) = front ++ insertIn name value back := by
  induction front with
  | nil => rfl
  | cons head tail inductionHypothesis =>
      have different : head.1 ≠ name := fun same => absent (by simp [same])
      have absentTail : name ∉ tail.map Prod.fst := fun member => absent (by simp [member])
      simp [insertIn, different, inductionHypothesis absentTail]

theorem insertIn_of_absent {name : String} {entries : List (String × α)}
    (absent : name ∉ entries.map Prod.fst) (value : α) :
    insertIn name value entries = entries ++ [(name, value)] := by
  have atEnd := insertIn_append absent value []
  simpa [insertIn] using atEnd

theorem insertIn_insertIn (name : String) (first second : α) (entries : List (String × α)) :
    insertIn name second (insertIn name first entries) = insertIn name second entries := by
  induction entries with
  | nil => simp [insertIn]
  | cons head tail inductionHypothesis =>
      by_cases same : head.1 = name
      · simp [insertIn, same]
      · simp [insertIn, same, inductionHypothesis]

theorem insert_insert (table : Table α) (name : String) (first second : α) :
    (table.insert name first).insert name second = table.insert name second :=
  congrArg Table.mk (insertIn_insertIn name first second table.entries)

theorem mem_insert {table : Table α} {name : String} {value : α} {entry : String × α}
    (member : entry ∈ (table.insert name value).entries) :
    entry = (name, value) ∨ entry ∈ table.entries := by
  obtain ⟨entries⟩ := table
  simp only [insert] at member
  induction entries with
  | nil => exact .inl (List.mem_singleton.mp member)
  | cons head tail inductionHypothesis =>
      by_cases same : head.1 = name
      · simp only [insertIn, same, if_true, List.mem_cons] at member
        exact member.imp id (List.mem_cons_of_mem _)
      · simp only [insertIn, same, if_false, List.mem_cons] at member
        obtain here | there := member
        · exact .inr (here ▸ List.mem_cons_self)
        · exact (inductionHypothesis there).imp id (List.mem_cons_of_mem _)

theorem mem_of_find? {table : Table α} {name : String} {value : α}
    (found : table.find? name = some value) : (name, value) ∈ table.entries := by
  obtain ⟨entries⟩ := table
  simp only [find?] at found
  induction entries with
  | nil => cases found
  | cons head tail inductionHypothesis =>
      obtain ⟨key, content⟩ := head
      by_cases same : key = name
      · simp only [findIn, same, if_true, Option.some.injEq] at found
        rw [same, found]
        exact List.mem_cons_self
      · simp only [findIn, same, if_false] at found
        exact List.mem_cons_of_mem _ (inductionHypothesis found)

theorem mem_ofList {entries : List (String × α)} {entry : String × α}
    (member : entry ∈ (Table.ofList entries).entries) : entry ∈ entries := by
  have general : ∀ (rest : List (String × α)) (table : Table α),
      entry ∈ (rest.foldl (fun table entry => table.insert entry.1 entry.2) table).entries →
      entry ∈ rest ∨ entry ∈ table.entries := by
    intro rest
    induction rest with
    | nil => exact fun _ member => .inr member
    | cons head tail inductionHypothesis =>
        intro table member
        obtain later | sooner := inductionHypothesis _ member
        · exact .inl (List.mem_cons_of_mem _ later)
        · obtain rfl | before := mem_insert sooner
          · exact .inl List.mem_cons_self
          · exact .inr before
  have found := general entries .empty member
  simpa [empty] using found

end Table

namespace Lexical

/-! ## Rows of cells -/

/-- Cells that hold these values, in order, and behind them an empty one if there is
a name that waits for its value. -/
def laidOut (filled : List (String × Value)) (pending : Option String) : Table (Option Value) :=
  ⟨filled.map (fun entry => (entry.1, some entry.2)) ++ pending.toList.map fun name => (name, none)⟩

/-- The first name whose cell is empty. -/
def pendingIn : List (String × Option Value) → Option String
  | [] => none
  | (name, none) :: _ => some name
  | (_, some _) :: rest => pendingIn rest

/-- The values in cells, in order. -/
def valuesIn (cells : Table (Option Value)) : List Value := cells.entries.filterMap Prod.snd

variable (filled : List (String × Value)) (pending : Option String)

theorem names_laidOut :
    (laidOut filled pending).names = filled.map Prod.fst ++ pending.toList := by
  simp [laidOut, Table.names, Function.comp_def]

theorem pendingIn_laidOut : pendingIn (laidOut filled pending).entries = pending := by
  induction filled with
  | nil => cases pending <;> rfl
  | cons head tail inductionHypothesis => exact inductionHypothesis

theorem valuesIn_laidOut : valuesIn (laidOut filled pending) = filled.map Prod.snd := by
  have allValues : (filled.map fun entry => (entry.1, some entry.2)).filterMap Prod.snd =
      filled.map Prod.snd := by
    induction filled with
    | nil => rfl
    | cons head tail inductionHypothesis => exact congrArg (List.cons head.2) inductionHypothesis
  have noValue :
      (pending.toList.map fun name => (name, (none : Option Value))).filterMap Prod.snd = [] := by
    cases pending <;> rfl
  rw [valuesIn, laidOut, List.filterMap_append, allValues, noValue, List.append_nil]

variable {filled pending}

/-- Where a name has this number, its cell holds what the slot with this number
holds: nothing, if there is no such slot. -/
theorem find?_laidOut {name : String} {slot : Nat}
    (distinct : (laidOut filled pending).names.Nodup)
    (named : (laidOut filled pending).names[slot]? = some name) :
    (laidOut filled pending).find? name = some ((filled.map Prod.snd)[slot]?) := by
  rw [names_laidOut] at distinct named
  induction filled generalizing slot with
  | nil =>
      cases pending with
      | none => simp at named
      | some waiting =>
          obtain ⟨rfl, rfl⟩ : slot = 0 ∧ waiting = name := by
            cases slot <;> simp_all
          simp [laidOut, Table.find?, Table.findIn]
  | cons head tail inductionHypothesis =>
      simp only [List.map_cons, List.cons_append, List.nodup_cons] at distinct
      cases slot with
      | zero =>
          obtain rfl : head.1 = name := by simpa using named
          simp [laidOut, Table.find?, Table.findIn]
      | succ slot =>
          have namedTail : (tail.map Prod.fst ++ pending.toList)[slot]? = some name := by
            simpa using named
          have different : head.1 ≠ name := by
            intro same
            exact distinct.1 (same ▸ List.mem_of_getElem? namedTail)
          have behind := inductionHypothesis distinct.2 namedTail
          simpa [laidOut, Table.find?, Table.findIn, different] using behind

theorem getElem?_of_find?_laidOut {name : String} {value : Value}
    (found : (laidOut filled pending).find? name = some (some value)) :
    ∃ slot : Nat, filled[slot]? = some (name, value) := by
  have member := Table.mem_of_find? found
  simp only [laidOut, List.mem_append, List.mem_map, Prod.mk.injEq, Option.some.injEq] at member
  obtain ⟨⟨key, content⟩, present, rfl, rfl⟩ | ⟨_, _, _, absent⟩ := member
  · exact List.mem_iff_getElem?.mp present
  · cases absent

/-! ## Filling cells -/

/-- A new name waits behind all others. -/
theorem insert_laidOut_new {name : String} (absent : name ∉ (laidOut filled none).names) :
    (laidOut filled none).insert name none = laidOut filled (some name) := by
  have atEnd := Table.insertIn_of_absent absent (none : Option Value)
  simpa [laidOut, Table.insert] using atEnd

/-- The name that waits gets its value. -/
theorem insert_laidOut_pending {name : String} (absent : name ∉ filled.map Prod.fst)
    (value : Value) :
    (laidOut filled (some name)).insert name (some value) =
      laidOut (filled ++ [(name, value)]) none := by
  have absentInRow : name ∉ (filled.map fun entry => (entry.1, some entry.2)).map Prod.fst := by
    simpa using absent
  have atEnd := Table.insertIn_append absentInRow (some value) [(name, none)]
  simpa [laidOut, Table.insert, Table.insertIn] using atEnd

/-- A value that is there is replaced. -/
theorem insert_laidOut_filled {name : String} {slot : Nat} {old : Value}
    (distinct : (laidOut filled pending).names.Nodup)
    (present : filled[slot]? = some (name, old)) (value : Value) :
    (laidOut filled pending).insert name (some value) =
      laidOut (filled.set slot (name, value)) pending := by
  rw [names_laidOut] at distinct
  induction filled generalizing slot with
  | nil => simp at present
  | cons head tail inductionHypothesis =>
      simp only [List.map_cons, List.cons_append, List.nodup_cons] at distinct
      cases slot with
      | zero =>
          obtain rfl : head = (name, old) := by simpa using present
          simp [laidOut, Table.insert, Table.insertIn]
      | succ slot =>
          have presentTail : tail[slot]? = some (name, old) := by simpa using present
          have member : name ∈ tail.map Prod.fst :=
            List.mem_map.mpr ⟨_, List.mem_of_getElem? presentTail, rfl⟩
          have different : head.1 ≠ name := by
            intro same
            exact distinct.1 (List.mem_append_left _ (same ▸ member))
          have behind := inductionHypothesis distinct.2 presentTail
          simp only [laidOut, Table.insert, Table.mk.injEq] at behind
          simp [laidOut, Table.insert, Table.insertIn, different, behind]

end Lexical

end Lox
