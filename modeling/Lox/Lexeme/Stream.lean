import Lox.Lexeme

/-!
Contract: the lexemes of a source text, in order and with their places.

A stream stands before a stretch of source. Each call of `next?` skips blanks
and yields the token or the error that begins there; an error does not stop the
stream. Behind the last lexeme stands one token that marks the end of the
source, and after it nothing. `Scan.of` collects a whole source.

Owns: order and places of lexemes, and the end mark. Does not own: what a lexeme
is.
-/

namespace Lox

/-- A token, or the error that stands in its place. -/
abbrev Item := Except ScanError Token

/-- A source text and how far it has been read. -/
structure Stream where
  source : List Char
  rest : List Char
  position : Position
  finished : Bool

namespace Stream

/-- The stream of a whole source. -/
def ofChars (source : List Char) : Stream :=
  ⟨source, source, .start, false⟩

/-- The stream of a whole source. -/
def ofString (source : String) : Stream := ofChars source.toList

/-- The stream before anything was read. -/
def reset (stream : Stream) : Stream := ofChars stream.source

/-- Skips the blanks that come next. -/
def skipSpace (position : Position) : List Char → Position × List Char
  | [] => (position, [])
  | character :: rest =>
      if Lexeme.isSpace character then skipSpace (position.after character) rest
      else (position, character :: rest)

/-- The item of a lexeme that stands at a place and covers a text. -/
def itemOf (lexeme : Lexeme) (position : Position) (covered : List Char) : Item :=
  match lexeme.outcome with
  | .ok kind => .ok ⟨kind, String.ofList covered, position.span lexeme.marked⟩
  | .error cause => .error ⟨cause, position.span lexeme.marked⟩

/-- The next item and the stream behind it, or nothing behind the end mark. -/
def next? (stream : Stream) : Option (Item × Stream) :=
  match skipSpace stream.position stream.rest with
  | (position, []) =>
      if stream.finished then none
      else
        some (.ok ⟨.endOfSource, "", position.span 0⟩,
          { stream with rest := [], position := position, finished := true })
  | (position, first :: rest) =>
      let lexeme := Lexeme.at first rest
      let covered := first :: rest.take lexeme.extent
      some (itemOf lexeme position covered,
        { stream with rest := rest.drop lexeme.extent, position := position.afterAll covered })

/-- At most so many of the items that are left. -/
def take : Nat → Stream → List Item
  | 0, _ => []
  | bound + 1, stream =>
      match stream.next? with
      | none => []
      | some (item, following) => item :: take bound following

/-- All items that are left. Every item but the end mark takes a character, so
there are at most as many as characters, and the end mark. -/
def items (stream : Stream) : List Item :=
  take (stream.rest.length + 1) stream

end Stream

/-- The tokens and the errors of a source text, each in order. -/
structure Scan where
  tokens : List Token
  errors : List ScanError

/-- Sorts items into tokens and errors. -/
def Scan.ofItems (items : List Item) : Scan where
  tokens := items.filterMap Except.toOption
  errors := items.filterMap fun
    | .ok _ => none
    | .error error => some error

/-- Scans a whole source text. -/
def Scan.of (source : String) : Scan :=
  Scan.ofItems (Stream.ofString source).items

end Lox
