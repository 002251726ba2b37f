/-!
Contract: when an entry at the prompt is complete.

An entry is complete when no string and no block comment is open at its end and
as many brackets were closed as opened, or more. Brackets in strings and comments
do not count.
-/

namespace Lox.Prompt

/-- What surrounds a character of an entry. -/
inductive Surroundings where
  | code
  | string
  | lineComment
  /-- A block comment with so many marks open inside its first. -/
  | blockComment (inner : Nat)
deriving DecidableEq, Repr

/-- How far the brackets of a character open an entry. -/
def bracketBalance (character : Char) : Int :=
  if character = '\x7b' ∨ character = '(' then 1
  else if character = '\x7d' ∨ character = ')' then -1
  else 0

/-- The surroundings behind a text, and how many more brackets are open there. -/
def surroundingsAfter : Surroundings → Int → List Char → Surroundings × Int
  | surroundings, opened, [] => (surroundings, opened)
  | .string, opened, character :: rest =>
      surroundingsAfter (if character = '"' then .code else .string) opened rest
  | .lineComment, opened, character :: rest =>
      surroundingsAfter (if character = '\n' then .code else .lineComment) opened rest
  | .blockComment 0, opened, '*' :: '/' :: rest => surroundingsAfter .code opened rest
  | .blockComment (inner + 1), opened, '*' :: '/' :: rest =>
      surroundingsAfter (.blockComment inner) opened rest
  | .blockComment inner, opened, '/' :: '*' :: rest =>
      surroundingsAfter (.blockComment (inner + 1)) opened rest
  | .blockComment inner, opened, _ :: rest =>
      surroundingsAfter (.blockComment inner) opened rest
  | .code, opened, '/' :: '/' :: rest => surroundingsAfter .lineComment opened rest
  | .code, opened, '/' :: '*' :: rest => surroundingsAfter (.blockComment 0) opened rest
  | .code, opened, character :: rest =>
      surroundingsAfter (if character = '"' then .string else .code)
        (opened + bracketBalance character) rest

/-- Whether an entry needs no further line. -/
def isComplete (entry : String) : Bool :=
  match surroundingsAfter .code 0 entry.toList with
  | (.code, opened) | (.lineComment, opened) => decide (opened ≤ 0)
  | _ => false

end Lox.Prompt
