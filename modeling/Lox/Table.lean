/-!
Contract: tables from names to values.

A table holds at most one value for a name. Inserting under a name that is
present replaces the value and keeps its place; a new name goes to the end.

Owns: look-up, insertion, the names in order. The look-up laws of insertion are
its main statements.
-/

namespace Lox

/-- A table from names to values, in the order in which the names came. -/
structure Table (α : Type) where
  entries : List (String × α)

namespace Table

variable {α : Type}

/-- The table without names. -/
def empty : Table α := ⟨[]⟩

/-- The value under a name in a list of entries. -/
def findIn (name : String) : List (String × α) → Option α
  | [] => none
  | (key, value) :: rest => if key = name then some value else findIn name rest

/-- The value under a name. -/
def find? (table : Table α) (name : String) : Option α := findIn name table.entries

/-- Whether there is a value under a name. -/
def contains (table : Table α) (name : String) : Bool := (table.find? name).isSome

/-- Puts a value under a name in a list of entries. -/
def insertIn (name : String) (value : α) : List (String × α) → List (String × α)
  | [] => [(name, value)]
  | (key, old) :: rest =>
      if key = name then (key, value) :: rest else (key, old) :: insertIn name value rest

/-- Puts a value under a name. -/
def insert (table : Table α) (name : String) (value : α) : Table α :=
  ⟨insertIn name value table.entries⟩

/-- Puts a value under a name that has none. -/
def insertIfNew (table : Table α) (name : String) (value : α) : Table α :=
  if table.contains name then table else table.insert name value

/-- Puts in values one after the other, later ones over earlier ones. -/
def ofList (entries : List (String × α)) : Table α :=
  entries.foldl (fun table entry => table.insert entry.1 entry.2) empty

/-- The names, in the order in which they came. -/
def names (table : Table α) : List String := table.entries.map Prod.fst

@[simp] theorem find?_empty (name : String) : (empty : Table α).find? name = none := rfl

theorem find?_insert_self (table : Table α) (name : String) (value : α) :
    (table.insert name value).find? name = some value := by
  obtain ⟨entries⟩ := table
  simp only [find?, insert]
  induction entries with
  | nil => simp [insertIn, findIn]
  | cons head tail inductionHypothesis =>
      by_cases same : head.1 = name
      · simp [insertIn, findIn, same]
      · simp [insertIn, findIn, same, inductionHypothesis]

theorem find?_insert_of_ne (table : Table α) {name other : String} (value : α)
    (different : other ≠ name) :
    (table.insert name value).find? other = table.find? other := by
  obtain ⟨entries⟩ := table
  simp only [find?, insert]
  induction entries with
  | nil => simp [insertIn, findIn, different.symm]
  | cons head tail inductionHypothesis =>
      by_cases same : head.1 = name
      · simp [insertIn, findIn, same, different.symm]
      · by_cases wanted : head.1 = other
        · simp [insertIn, findIn, wanted, different]
        · simp [insertIn, findIn, same, wanted, inductionHypothesis]

/-- There is something under a name exactly if it is one of the names. -/
theorem isSome_find?_iff (table : Table α) (name : String) :
    (table.find? name).isSome = true ↔ name ∈ table.names := by
  obtain ⟨entries⟩ := table
  simp only [find?, names]
  induction entries with
  | nil => simp [findIn]
  | cons head tail inductionHypothesis =>
      by_cases same : head.1 = name
      · simp [findIn, same]
      · have different : name ≠ head.1 := fun equal => same equal.symm
        simp [findIn, same, different, inductionHypothesis]

end Table

end Lox
