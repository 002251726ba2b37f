import Lox.Number.Layout
import Lox.Token

/-!
Contract: the lexical grammar, one lexeme at a time.

`Lexeme.at` says what begins at a character that is not blank: a kind of token
or an error, and how much of the text it takes. Every lexeme takes as much as
its rule allows. Lexemes are measured rather than cut out, so that the text of a
token is by construction the stretch of source that it covers.

Owns: symbols, words, numbers, strings, both sorts of comment, and the three
lexical errors. Does not own: blanks between lexemes and places in the source.
-/

namespace Lox

/-- Why a text is not made of tokens. -/
inductive ScanError.Cause where
  | unexpectedCharacter (character : Char)
  | unterminatedString
  | unterminatedBlockComment
deriving DecidableEq, Repr

/-- A lexical error and where it stands. -/
structure ScanError where
  cause : ScanError.Cause
  span : Span
deriving DecidableEq, Repr

/-- The wording of a lexical error. -/
def ScanError.Cause.message : ScanError.Cause → String
  | .unexpectedCharacter character =>
      "Unexpected character '" ++ String.singleton character ++ "'."
  | .unterminatedString => "Unterminated string."
  | .unterminatedBlockComment => "Unterminated block comment."

/-- The wording of a lexical error. -/
def ScanError.message (error : ScanError) : String := error.cause.message

/-- The error with its line, as one line of text. -/
def ScanError.display (error : ScanError) : String :=
  "[line " ++ toString error.span.line ++ "] " ++ error.message

/-- What begins at a character: a kind of token or an error, how many characters
after the first belong to it, and how many characters its span covers. -/
structure Lexeme where
  outcome : Except ScanError.Cause Token.Kind
  extent : Nat
  marked : Nat

namespace Lexeme

/-- Letters of identifiers: `a` to `z`, `A` to `Z` and the underscore. -/
def isLetter (character : Char) : Bool :=
  character.isAlpha || character == '_'

/-- What may follow the first letter of an identifier. -/
def isWordCharacter (character : Char) : Bool :=
  isLetter character || character.isDigit

/-- The blanks between lexemes. -/
def isSpace (character : Char) : Bool :=
  character == ' ' || character == '\r' || character == '\t' || character == '\n'

/-- A token that takes `extent` characters after its first, all underlined. -/
def plain (kind : Token.Kind) (extent : Nat) : Lexeme :=
  ⟨.ok kind, extent, extent + 1⟩

/-- A symbol of one character. -/
def single (sign : Symbol) : Lexeme := plain (.symbol sign) 0

/-- A symbol that an equals sign right behind it turns into another. -/
def withEqual (alone joined : Symbol) : List Char → Lexeme
  | '=' :: _ => plain (.symbol joined) 1
  | _ => single alone

/-- How many characters a block comment takes up to its last closing mark, when
`depth` marks are open and `taken` characters are behind. Comments nest. -/
def blockCommentEnd (depth taken : Nat) : List Char → Option Nat
  | '*' :: '/' :: rest =>
      if depth ≤ 1 then some (taken + 2) else blockCommentEnd (depth - 1) (taken + 2) rest
  | '/' :: '*' :: rest => blockCommentEnd (depth + 1) (taken + 2) rest
  | _ :: rest => blockCommentEnd depth (taken + 1) rest
  | [] => none

/-- A comment up to the end of the line. -/
def lineComment (body : List Char) : Lexeme :=
  plain .comment ((body.takeWhile (· ≠ '\n')).length + 1)

/-- A comment between marks, underlined at its opening mark only. -/
def blockComment (body : List Char) : Lexeme :=
  match blockCommentEnd 1 0 body with
  | some taken => ⟨.ok .comment, taken + 1, 2⟩
  | none => ⟨.error .unterminatedBlockComment, body.length + 1, 2⟩

/-- A string up to the next quote, underlined at its opening quote only. -/
def quotation (body : List Char) : Lexeme :=
  let value := body.takeWhile (· ≠ '"')
  if value.length < body.length then
    ⟨.ok (.string (String.ofList value)), value.length + 1, 1⟩
  else
    ⟨.error .unterminatedString, body.length, 1⟩

/-- The digits of a fraction, if a point and a digit begin here. -/
def fractionDigits : List Char → List Char
  | '.' :: rest => rest.takeWhile Char.isDigit
  | _ => []

/-- A number: digits, and a fraction where a digit follows the point. -/
def numeral (first : Char) (rest : List Char) : Lexeme :=
  let whole := rest.takeWhile Char.isDigit
  let fraction := fractionDigits (rest.drop whole.length)
  let extent := if fraction.isEmpty then whole.length else whole.length + 1 + fraction.length
  plain (.number (Number.ofLiteral (first :: whole) fraction)) extent

/-- An identifier, or the reserved word that it spells. -/
def word (first : Char) (rest : List Char) : Lexeme :=
  let tail := rest.takeWhile isWordCharacter
  match Keyword.ofText? (String.ofList (first :: tail)) with
  | some reserved => plain (.keyword reserved) tail.length
  | none => plain .identifier tail.length

/-- What begins at the character `first`, which is no blank, before `rest`. -/
def «at» (first : Char) (rest : List Char) : Lexeme :=
  match first with
  | '(' => single .leftParen
  | ')' => single .rightParen
  | '\x7b' => single .leftBrace
  | '\x7d' => single .rightBrace
  | ',' => single .comma
  | '.' => single .dot
  | '-' => single .minus
  | '+' => single .plus
  | ';' => single .semicolon
  | '*' => single .star
  | '!' => withEqual .bang .bangEqual rest
  | '=' => withEqual .equal .equalEqual rest
  | '<' => withEqual .less .lessEqual rest
  | '>' => withEqual .greater .greaterEqual rest
  | '/' =>
      match rest with
      | '/' :: body => lineComment body
      | '*' :: body => blockComment body
      | _ => single .slash
  | '"' => quotation rest
  | other =>
      if other.isDigit then numeral other rest
      else if isLetter other then word other rest
      else ⟨.error (.unexpectedCharacter other), 0, 1⟩

end Lexeme

end Lox
