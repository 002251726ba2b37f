import Lox.Grammar.Construct

/-!
Contract: programs and bare expressions read from tokens.

Comments are left out, and tokens behind the first end mark are not looked at.
A program is read declaration by declaration. After a declaration that stops
with a complaint, reading resumes behind the next semicolon or at the next word
that begins a statement, whichever comes first, but always at least one token
further; so every error of the source is found in one pass. A source with errors
has no tree.
-/

namespace Lox

namespace Grammar

/-- Tokens that matter to the grammar, and where they end. -/
structure Text where
  tokens : List Token
  finish : Span

/-- Drops comments and what follows the first end mark. Without an end mark the
text ends where its last token stands, or nowhere. -/
def Text.of (tokens : List Token) : Text :=
  let meaningful := Token.withoutComments tokens
  let finish := match meaningful.find? (·.kind.isEnd) with
    | some mark => mark.span
    | none => (meaningful.getLast?.map Token.span).getD .nowhere
  ⟨meaningful.takeWhile (!·.kind.isEnd), finish⟩

/-- Where reading resumes behind the token `previous`: at once when that token
is a semicolon or the next one begins a statement. -/
def resumeBehind (previous : Token) : List Token → List Token
  | [] => []
  | token :: rest =>
      if previous.kind.isSymbol .semicolon || token.kind.startsStatement then token :: rest
      else resumeBehind token rest

/-- Where reading resumes after a complaint about the first of these tokens. -/
def resume : List Token → List Token
  | [] => []
  | token :: rest => resumeBehind token rest

/-- What reading a sequence of declarations yields. -/
structure Findings where
  statements : List Stmt
  complaints : List Complaint

/-- Reads declarations to the end, at most so many. -/
def declarations (bound : Nat) : Nat → List Token → Findings
  | _, [] => ⟨[], []⟩
  | 0, _ => ⟨[], []⟩
  | rounds + 1, tokens =>
      match declaration bound tokens with
      | ⟨.ok found, rest, notes⟩ =>
          let others := declarations bound rounds rest
          ⟨found :: others.statements, notes ++ others.complaints⟩
      | ⟨.error complaint, rest, notes⟩ =>
          let others := declarations bound rounds (resume rest)
          ⟨others.statements, notes ++ complaint :: others.complaints⟩

/-- Reads a text as one expression. -/
def bareExpression (bound : Nat) : Parser Expr := do
  let found ← expression bound
  if ← Parser.atEnd then return found
  else Parser.fail .endOfExpression

end Grammar

/-- Reads a program, or finds its syntax errors. -/
def Program.ofTokens (tokens : List Token) : Except (List SyntaxError) Program :=
  let text := Grammar.Text.of tokens
  let findings :=
    Grammar.declarations (Grammar.boundFor text.tokens) text.tokens.length text.tokens
  match findings.complaints with
  | [] => .ok ⟨findings.statements⟩
  | complaints => .error (complaints.map (Complaint.toError text.finish))

/-- Reads a bare expression, or finds its syntax errors. -/
def Expr.ofTokens (tokens : List Token) : Except (List SyntaxError) Expr :=
  let text := Grammar.Text.of tokens
  match Grammar.bareExpression (Grammar.boundFor text.tokens) text.tokens with
  | ⟨.ok found, _, []⟩ => .ok found
  | ⟨.ok _, _, notes⟩ => .error (notes.map (Complaint.toError text.finish))
  | ⟨.error complaint, _, notes⟩ =>
      .error ((notes ++ [complaint]).map (Complaint.toError text.finish))

end Lox
