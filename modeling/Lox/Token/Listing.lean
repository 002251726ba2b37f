import Lox.Number.Layout
import Lox.Text.Invisible
import Lox.Token

/-!
Contract: the token listing.

One token is shown as its place, its kind and its lexeme. A literal shows its
value as well: a number in the listing layout, a string between quotes. There
quotes and backslashes are written after a backslash, the five usual control
characters by their letter, and other characters that leave no mark of their
own by their code point in braces. All others stand for themselves.
-/

namespace Lox

namespace Text

/-- The code point of a character in lower-case hexadecimal, in braces. -/
def codePointEscape (character : Char) : List Char :=
  ['\\', 'u', '\x7b'] ++ Nat.toDigits 16 character.toNat ++ ['\x7d']

/-- How a quoted text shows one character. -/
def quotedCharacter (character : Char) : List Char :=
  match character with
  | '"' => ['\\', '"']
  | '\\' => ['\\', '\\']
  | '\n' => ['\\', 'n']
  | '\r' => ['\\', 'r']
  | '\t' => ['\\', 't']
  | '\x00' => ['\\', '0']
  | other => if isInvisible other then codePointEscape other else [other]

/-- The text between double quotes. -/
def quoted (text : String) : String :=
  String.ofList ('"' :: text.toList.flatMap quotedCharacter ++ ['"'])

end Text

/-- The kind as a token listing shows it. -/
def Token.Kind.title : Token.Kind → String
  | .symbol sign => sign.title
  | .keyword word => word.title
  | .identifier => "Identifier"
  | .string value => "String(" ++ Text.quoted value ++ ")"
  | .number value => "Number(" ++ Number.Layout.listing.text value ++ ")"
  | .comment => "Comment"
  | .endOfSource => "Eof"

/-- One line of a token listing. The blank before the lexeme stays when the
lexeme is empty. -/
def Token.listing (token : Token) : String :=
  "[" ++ toString token.span.line ++ ":" ++ toString token.span.column ++ "] " ++
    token.kind.title ++ " " ++ token.lexeme

end Lox
