/-!
Contract: blanks and lines of a text.

The blanks are the characters with the Unicode property White_Space. Trimming
drops them from both ends of a text.

A line feed ends a line, together with a carriage return right before it; a
carriage return elsewhere is an ordinary character. What follows the last line
feed is a line of its own unless it is empty.
-/

namespace Lox.Text

/-! ## Blanks -/

/-- Whether the character has the property White_Space. -/
def isBlank (character : Char) : Bool :=
  let code := character.toNat
  decide (0x09 ≤ code ∧ code ≤ 0x0D) || code == 0x20 || code == 0x85 || code == 0xA0 ||
    code == 0x1680 || decide (0x2000 ≤ code ∧ code ≤ 0x200A) || code == 0x2028 ||
    code == 0x2029 || code == 0x202F || code == 0x205F || code == 0x3000

/-- The text without the blanks at its start and its end. -/
def trimmed (text : String) : String :=
  let front := text.toList.dropWhile isBlank
  String.ofList (front.reverse.dropWhile isBlank).reverse

/-- Whether the text holds nothing but blanks. -/
def allBlank (text : String) : Bool :=
  text.toList.all isBlank

/-! ## Lines -/

/-- The lines that remain, the first of which begins with `begun`, reversed. -/
def linesFrom (begun : List Char) : List Char → List String
  | [] => if begun.isEmpty then [] else [String.ofList begun.reverse]
  | '\r' :: '\n' :: rest => String.ofList begun.reverse :: linesFrom [] rest
  | '\n' :: rest => String.ofList begun.reverse :: linesFrom [] rest
  | character :: rest => linesFrom (character :: begun) rest

/-- The lines of a text, without their ends. -/
def lines (text : String) : List String :=
  linesFrom [] text.toList

end Lox.Text
