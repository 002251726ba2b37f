/-!
Contract: places in a source text.

A `Position` is the line and column of one character, both counted from one,
columns in code points. A `Span` is a position together with the number of
characters that a diagnostic underlines. Reading a character moves a position
to the next column, and reading a line feed to the first column of the next
line; nothing else starts a line.
-/

namespace Lox

/-- The stretch of one source line that a token, a node or an error covers. -/
structure Span where
  line : Nat
  column : Nat
  length : Nat
deriving DecidableEq, Repr

/-- The span of something that stands at no place of the source. -/
def Span.nowhere : Span := ⟨0, 0, 0⟩

/-- The line and column of a character. -/
structure Position where
  line : Nat
  column : Nat
deriving DecidableEq, Repr

/-- Where every source starts. -/
def Position.start : Position := ⟨1, 1⟩

/-- The position after one more character. -/
def Position.after (position : Position) (character : Char) : Position :=
  if character = '\n' then ⟨position.line + 1, 1⟩
  else ⟨position.line, position.column + 1⟩

/-- The position after a run of characters. -/
def Position.afterAll (position : Position) (characters : List Char) : Position :=
  characters.foldl Position.after position

/-- The span of `length` characters that starts here. -/
def Position.span (position : Position) (length : Nat) : Span :=
  ⟨position.line, position.column, length⟩

@[simp] theorem Position.afterAll_nil (position : Position) :
    position.afterAll [] = position := rfl

@[simp] theorem Position.afterAll_cons (position : Position) (character : Char)
    (characters : List Char) :
    position.afterAll (character :: characters) =
      (position.after character).afterAll characters := rfl

theorem Position.afterAll_append (position : Position) (first second : List Char) :
    position.afterAll (first ++ second) = (position.afterAll first).afterAll second := by
  simp [Position.afterAll]

end Lox
