import Lox.Grammar.Complaint
import Lox.Syntax

/-!
Contract: recursive descent over a list of tokens.

A parser reads tokens from the front of a list. Its reply holds what it found or
the complaint that stopped it, the tokens that are left from the point it
reached, and the complaints that it noted without stopping. Notes come in the
order in which they were made.

Owns: sequencing, the tests of the next token, optional and required tokens,
and repetition. Repetition takes a bound on the number of rounds; every round
takes a token, so that a bound above the number of tokens is never used up.
-/

namespace Lox

/-- What a parser answers. -/
structure Reply (α : Type) where
  outcome : Except Complaint α
  rest : List Token
  notes : List Complaint

/-- A reader of tokens. -/
def Parser (α : Type) : Type := List Token → Reply α

namespace Parser

variable {α β : Type}

/-- Finds a value without reading a token. -/
def succeed (value : α) : Parser α := fun tokens => ⟨.ok value, tokens, []⟩

/-- Reads with one parser and goes on with the next. -/
def andThen (first : Parser α) (next : α → Parser β) : Parser β := fun tokens =>
  match first tokens with
  | ⟨.error complaint, rest, notes⟩ => ⟨.error complaint, rest, notes⟩
  | ⟨.ok value, rest, notes⟩ =>
      let reply := next value rest
      { reply with notes := notes ++ reply.notes }

/-- Parsers follow one another. -/
instance : Monad Parser where
  pure := succeed
  bind := andThen

theorem bind_of_ok {first : Parser α} {next : α → Parser β} {tokens rest : List Token}
    {value : α} {notes : List Complaint} (found : first tokens = ⟨.ok value, rest, notes⟩) :
    (first >>= next) tokens =
      { next value rest with notes := notes ++ (next value rest).notes } := by
  simp [bind, andThen, found]

theorem bind_of_error {first : Parser α} {next : α → Parser β} {tokens rest : List Token}
    {complaint : Complaint} {notes : List Complaint}
    (stopped : first tokens = ⟨.error complaint, rest, notes⟩) :
    (first >>= next) tokens = ⟨.error complaint, rest, notes⟩ := by
  simp [bind, andThen, stopped]

/-- Stops with a complaint about the next token. -/
def fail (cause : SyntaxError.Cause) : Parser α := fun tokens =>
  ⟨.error ⟨cause, tokens.head?⟩, tokens, []⟩

/-- Notes a complaint about a token, or about the end of the source. -/
def note (cause : SyntaxError.Cause) (token : Option Token) : Parser Unit := fun tokens =>
  ⟨.ok (), tokens, [⟨cause, token⟩]⟩

/-- The next token, left in place. -/
def peek : Parser (Option Token) := fun tokens => ⟨.ok tokens.head?, tokens, []⟩

/-- Whether the tokens are used up. -/
def atEnd : Parser Bool := fun tokens => ⟨.ok tokens.isEmpty, tokens, []⟩

/-- Whether the next token has such a kind. -/
def sees (test : Token.Kind → Bool) : Parser Bool := fun tokens =>
  ⟨.ok (tokens.head?.any fun token => test token.kind), tokens, []⟩

/-- Reads the next token, if there is one, and finds its span. -/
def skip : Parser Span := fun tokens =>
  match tokens with
  | token :: rest => ⟨.ok token.span, rest, []⟩
  | [] => ⟨.ok .nowhere, [], []⟩

/-- The span of the next token, if there is one. -/
def nextSpan : Parser Span := fun tokens =>
  ⟨.ok ((tokens.head?.map Token.span).getD .nowhere), tokens, []⟩

/-- Reads the next token if its kind stands for something. -/
def optionalAs (meaning : Token.Kind → Option α) : Parser (Option (α × Span)) := fun tokens =>
  match tokens with
  | token :: rest =>
      match meaning token.kind with
      | some found => ⟨.ok (some (found, token.span)), rest, []⟩
      | none => ⟨.ok none, tokens, []⟩
  | [] => ⟨.ok none, tokens, []⟩

/-- Reads the next token if it has such a kind. -/
def optional (test : Token.Kind → Bool) : Parser (Option Token) := fun tokens =>
  match tokens with
  | token :: rest =>
      if test token.kind then ⟨.ok (some token), rest, []⟩ else ⟨.ok none, tokens, []⟩
  | [] => ⟨.ok none, tokens, []⟩

/-- Reads the next token, which must have such a kind. -/
def require (test : Token.Kind → Bool) (cause : SyntaxError.Cause) : Parser Token := fun tokens =>
  match tokens with
  | token :: rest =>
      if test token.kind then ⟨.ok token, rest, []⟩
      else ⟨.error ⟨cause, some token⟩, tokens, []⟩
  | [] => ⟨.error ⟨cause, none⟩, tokens, []⟩

/-- Reads this symbol if it comes next. -/
def optionalSymbol (sign : Symbol) : Parser (Option Token) := optional (·.isSymbol sign)

/-- Reads this symbol, which stands at this place of a construct. -/
def symbol (sign : Symbol) (place : String) : Parser Token :=
  require (·.isSymbol sign) (.symbol sign place)

/-- Reads an identifier in this role. -/
def name (role : String) : Parser Name := do
  let token ← require Token.Kind.isIdentifier (.name role)
  return ⟨token.lexeme, token.span⟩

/-- Reads items up to a token of such a kind, or to the end of the source. -/
def itemsUntil (stop : Token.Kind → Bool) (item : Parser α) : Nat → Parser (List α)
  | 0 => fail .nesting
  | bound + 1 => do
      if (← atEnd) || (← sees stop) then return []
      let first ← item
      return first :: (← itemsUntil stop item bound)

/-- Reads items with commas between them, of which `count` are behind. An item
too many is noted and read all the same. -/
def itemsByComma (things : String) (item : Parser α) : Nat → Nat → Parser (List α)
  | 0, _ => fail .nesting
  | bound + 1, count => do
      if longestList ≤ count then note (.tooMany things) (← peek)
      let first ← item
      match ← optionalSymbol .comma with
      | none => return [first]
      | some _ => return first :: (← itemsByComma things item bound (count + 1))

/-- Reads a list of items between parentheses, the opening one of which is
behind, and its closing parenthesis. -/
def parenthesizedItems (things : String) (item : Parser α) (bound : Nat) :
    Parser (List α × Token) := do
  let found ←
    if ← sees (·.isSymbol .rightParen) then pure []
    else itemsByComma things item bound 0
  return (found, ← symbol .rightParen ("after " ++ things))

end Parser

end Lox
