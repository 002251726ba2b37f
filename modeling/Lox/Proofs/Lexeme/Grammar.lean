import Lox.Proofs.Lexeme.Numeral

/-!
Contract: the lexical grammar.

Which texts are tokens is said of each kind on its own, and where a token ends is said by what may
not follow it. A block comment is told from its marks: read from left to right, none overlapping
another, as many of them close a comment as open one, and of no shorter beginning is the same
true. What is no token is an error: a quote or an opening mark without its end, and a character
that begins nothing.

Owns: texts of tokens, ends of tokens, lexical errors. Does not own: how lexemes are found.
-/

set_option autoImplicit false

namespace Lox.Lexeme

/-! ## Characters -/

/-- The characters that stand between lexemes. -/
def blanks : List Char := [' ', '\r', '\t', '\n']

/-- `A` to `Z`, `a` to `z` and the underscore. -/
def Letter (character : Char) : Prop :=
  ('A' ≤ character ∧ character ≤ 'Z') ∨ ('a' ≤ character ∧ character ≤ 'z') ∨ character = '_'

/-- `0` to `9`. -/
def Digit (character : Char) : Prop := '0' ≤ character ∧ character ≤ '9'

theorem isSpace_iff (character : Char) : isSpace character = true ↔ character ∈ blanks := by
  simp [isSpace, blanks, or_assoc]

theorem notMem_blanks {character : Char} (solid : isSpace character = false) : character ∉ blanks :=
  mt (isSpace_iff character).mpr (Bool.eq_false_iff.mp solid)

theorem isLetter_iff (character : Char) : isLetter character = true ↔ Letter character := by
  have upper : character.isUpper = true ↔ 'A' ≤ character ∧ character ≤ 'Z' := decide_eq_true_iff
  have lower : character.isLower = true ↔ 'a' ≤ character ∧ character ≤ 'z' :=
    Bool.and_eq_true_iff.trans (and_congr decide_eq_true_iff decide_eq_true_iff)
  have alphabetic : character.isAlpha = true ↔ character.isUpper = true ∨ character.isLower = true :=
    Bool.or_eq_true_iff
  rw [isLetter, Bool.or_eq_true, alphabetic, upper, lower, beq_iff_eq, or_assoc]
  rfl

theorem isDigit_iff (character : Char) : character.isDigit = true ↔ Digit character := by
  simp only [Char.isDigit, Bool.and_eq_true, decide_eq_true_eq, Digit]
  rfl

theorem isWordCharacter_iff (character : Char) :
    isWordCharacter character = true ↔ Letter character ∨ Digit character := by
  rw [isWordCharacter, Bool.or_eq_true, isLetter_iff, isDigit_iff]

/-! ## Block comments -/

/-- A mark of a block comment. -/
inductive Mark where
  | opening | closing
deriving DecidableEq, Repr

/-- The comment marks of a text, from left to right, none overlapping another. -/
def marks : List Char → List Mark
  | '/' :: '*' :: rest => .opening :: marks rest
  | '*' :: '/' :: rest => .closing :: marks rest
  | _ :: rest => marks rest
  | [] => []

/-- How many marks of the text open comments. -/
def openings (text : List Char) : Nat := (marks text).count .opening

/-- How many marks of the text close comments. -/
def closings (text : List Char) : Nat := (marks text).count .closing

/-- A block comment: the text begins with an opening mark, and its marks balance, but those of no
shorter beginning do. -/
structure Nested (text : List Char) : Prop where
  opens : ['/', '*'] <+: text
  balanced : openings text = closings text
  shortest : ∀ shorter, ['/', '*'] <+: shorter → shorter <+: text →
    openings shorter = closings shorter → shorter = text

/-! ## Tokens -/

/-- The text of a number: digits, and a point and digits behind them or not. -/
inductive Numeral : List Char → Prop where
  | whole {digits : List Char} (some : digits ≠ [])
      (digital : ∀ character ∈ digits, Digit character) : Numeral digits
  | decimal {digits fraction : List Char} (some : digits ≠ [])
      (digital : ∀ character ∈ digits, Digit character) (someBehind : fraction ≠ [])
      (digitalBehind : ∀ character ∈ fraction, Digit character) :
      Numeral (digits ++ '.' :: fraction)

/-- The text is a token of this kind. -/
inductive Spells : List Char → Token.Kind → Prop where
  | symbol (sign : Symbol) : Spells sign.text.toList (.symbol sign)
  | keyword (word : Keyword) : Spells word.text.toList (.keyword word)
  | identifier {first : Char} {tail : List Char} (letter : Letter first)
      (others : ∀ character ∈ tail, Letter character ∨ Digit character)
      (free : ∀ word : Keyword, word.text.toList ≠ first :: tail) :
      Spells (first :: tail) .identifier
  | number {text : List Char} {value : Float} (numeral : Numeral text)
      (reads : Number.ofText? text = some value) : Spells text (.number value)
  | string {value : List Char} (inside : '"' ∉ value) :
      Spells ('"' :: (value ++ ['"'])) (.string (String.ofList value))
  | lineComment {body : List Char} (inside : '\n' ∉ body) : Spells ('/' :: '/' :: body) .comment
  | blockComment {text : List Char} (nested : Nested text) : Spells text .comment

/-- What follows a token of this kind does not prolong it. -/
def EndsAt (covered after : List Char) : Token.Kind → Prop
  | .symbol .bang | .symbol .equal | .symbol .less | .symbol .greater => after.head? ≠ some '='
  | .symbol .slash => after.head? ≠ some '/' ∧ after.head? ≠ some '*'
  | .keyword _ | .identifier => ∀ character ∈ after.head?, ¬ (Letter character ∨ Digit character)
  | .number _ => (∀ character ∈ after.head?, ¬ Digit character) ∧
      ('.' ∈ covered ∨ ∀ digit rest, after = '.' :: digit :: rest → ¬ Digit digit)
  | .comment => ['/', '/'] <+: covered → after = [] ∨ after.head? = some '\n'
  | _ => True

/-- The text is a token of this kind in front of another text, and no longer one is a token. -/
structure IsToken (covered after : List Char) (kind : Token.Kind) : Prop where
  spells : Spells covered kind
  ends : EndsAt covered after kind
  longest : ∀ text other, text <+: covered ++ after → Spells text other → text.length ≤ covered.length

/-- What begins a text, in front of what follows it: a token or a lexical error. -/
inductive Leads : List Char → List Char → Except ScanError.Cause Token.Kind → Prop where
  | token {covered after : List Char} {kind : Token.Kind} (found : IsToken covered after kind) :
      Leads covered after (.ok kind)
  | unterminatedString {body : List Char} (inside : '"' ∉ body) :
      Leads ('"' :: body) [] (.error .unterminatedString)
  | unterminatedBlockComment {body : List Char}
      (endless : ∀ text, text <+: '/' :: '*' :: body → ¬ Nested text) :
      Leads ('/' :: '*' :: body) [] (.error .unterminatedBlockComment)
  | unexpectedCharacter {character : Char} {after : List Char} (solid : character ∉ blanks)
      (nothing : ∀ more kind, ¬ Spells (character :: more) kind) :
      Leads [character] after (.error (.unexpectedCharacter character))

/-- The text is cut into these lexemes, blanks between them. -/
inductive Lexed : List Char → List (List Char × Except ScanError.Cause Token.Kind) → Prop where
  | finish {space : List Char} (blank : ∀ character ∈ space, character ∈ blanks) : Lexed space []
  | lexeme {space covered after : List Char} {outcome : Except ScanError.Cause Token.Kind}
      {others : List (List Char × Except ScanError.Cause Token.Kind)}
      (blank : ∀ character ∈ space, character ∈ blanks) (leads : Leads covered after outcome)
      (behind : Lexed after others) :
      Lexed (space ++ (covered ++ after)) ((covered, outcome) :: others)

end Lox.Lexeme
