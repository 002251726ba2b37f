import Lox.Source.Span

/-!
Contract: the vocabulary of the language.

A token has a kind, the text it was written with and the span where it stands.
Kinds are the nineteen symbols, the eighteen reserved words, identifiers, the
two sorts of literal with their values, comments, and the end of the source.

Owns: the spelling of symbols and reserved words, and which of them begin a
statement. Does not own: how a text is cut into tokens.
-/

namespace Lox

/-- Punctuation and operators. -/
inductive Symbol where
  | leftParen | rightParen | leftBrace | rightBrace
  | comma | dot | minus | plus | semicolon | slash | star
  | bang | bangEqual | equal | equalEqual
  | greater | greaterEqual | less | lessEqual
deriving DecidableEq, Repr

/-- How a symbol is written. -/
def Symbol.text : Symbol → String
  | .leftParen => "("
  | .rightParen => ")"
  | .leftBrace => "\x7b"
  | .rightBrace => "\x7d"
  | .comma => ","
  | .dot => "."
  | .minus => "-"
  | .plus => "+"
  | .semicolon => ";"
  | .slash => "/"
  | .star => "*"
  | .bang => "!"
  | .bangEqual => "!="
  | .equal => "="
  | .equalEqual => "=="
  | .greater => ">"
  | .greaterEqual => ">="
  | .less => "<"
  | .lessEqual => "<="

/-- The name under which a token listing shows a symbol. -/
def Symbol.title : Symbol → String
  | .leftParen => "LeftParen"
  | .rightParen => "RightParen"
  | .leftBrace => "LeftBrace"
  | .rightBrace => "RightBrace"
  | .comma => "Comma"
  | .dot => "Dot"
  | .minus => "Minus"
  | .plus => "Plus"
  | .semicolon => "Semicolon"
  | .slash => "Slash"
  | .star => "Star"
  | .bang => "Bang"
  | .bangEqual => "BangEqual"
  | .equal => "Equal"
  | .equalEqual => "EqualEqual"
  | .greater => "Greater"
  | .greaterEqual => "GreaterEqual"
  | .less => "Less"
  | .lessEqual => "LessEqual"

/-- Reserved words. -/
inductive Keyword where
  | and | break | «class» | continue | else | false | for | fun | if
  | nil | or | print | return | super | this | true | var | while
deriving DecidableEq, Repr

/-- How a reserved word is written. -/
def Keyword.text : Keyword → String
  | .and => "and"
  | .break => "break"
  | .class => "class"
  | .continue => "continue"
  | .else => "else"
  | .false => "false"
  | .for => "for"
  | .fun => "fun"
  | .if => "if"
  | .nil => "nil"
  | .or => "or"
  | .print => "print"
  | .return => "return"
  | .super => "super"
  | .this => "this"
  | .true => "true"
  | .var => "var"
  | .while => "while"

/-- The name under which a token listing shows a reserved word. -/
def Keyword.title : Keyword → String
  | .and => "And"
  | .break => "Break"
  | .class => "Class"
  | .continue => "Continue"
  | .else => "Else"
  | .false => "False"
  | .for => "For"
  | .fun => "Fun"
  | .if => "If"
  | .nil => "Nil"
  | .or => "Or"
  | .print => "Print"
  | .return => "Return"
  | .super => "Super"
  | .this => "This"
  | .true => "True"
  | .var => "Var"
  | .while => "While"

/-- Every reserved word, in alphabetical order. -/
def Keyword.all : List Keyword :=
  [.and, .break, .class, .continue, .else, .false, .for, .fun, .if,
    .nil, .or, .print, .return, .super, .this, .true, .var, .while]

theorem Keyword.mem_all (word : Keyword) : word ∈ Keyword.all := by
  cases word <;> decide

/-- The reserved word with exactly this spelling, if there is one. -/
def Keyword.ofText? (text : String) : Option Keyword :=
  Keyword.all.find? (fun word => word.text == text)

theorem Keyword.ofText?_text (word : Keyword) : Keyword.ofText? word.text = some word := by
  cases word <;> decide

/-- The words that begin a declaration or a statement. After a syntax error
reading goes on at one of them. -/
def Keyword.startsStatement (word : Keyword) : Bool :=
  [Keyword.class, .fun, .var, .for, .if, .while, .print, .return].contains word

/-- What sort of thing a token is, with the value of a literal. -/
inductive Token.Kind where
  | symbol (sign : Symbol)
  | keyword (word : Keyword)
  | identifier
  | string (value : String)
  | number (value : Float)
  | comment
  | endOfSource

/-- A token: its kind, the text it was written with, and where it stands. -/
structure Token where
  kind : Token.Kind
  lexeme : String
  span : Span

/-- Whether the kind is this symbol. -/
def Token.Kind.isSymbol (wanted : Symbol) : Token.Kind → Bool
  | .symbol sign => sign == wanted
  | _ => false

/-- Whether the kind is this reserved word. -/
def Token.Kind.isKeyword (wanted : Keyword) : Token.Kind → Bool
  | .keyword word => word == wanted
  | _ => false

/-- Whether the kind is an identifier. -/
def Token.Kind.isIdentifier : Token.Kind → Bool
  | .identifier => true
  | _ => false

/-- Whether the kind is a comment. -/
def Token.Kind.isComment : Token.Kind → Bool
  | .comment => true
  | _ => false

/-- Whether the kind marks the end of the source. -/
def Token.Kind.isEnd : Token.Kind → Bool
  | .endOfSource => true
  | _ => false

/-- Whether a token of this kind begins a declaration or a statement. -/
def Token.Kind.startsStatement : Token.Kind → Bool
  | .keyword word => word.startsStatement
  | _ => false

/-- The tokens that carry meaning: all but the comments. -/
def Token.withoutComments (tokens : List Token) : List Token :=
  tokens.filter (fun token => !token.kind.isComment)

end Lox
