import Salita.Token.Basic

namespace Salita

structure Cursor where
  tokens : Array Token
  position : Nat

namespace Cursor

def ofTokens (tokens : Array Token) : Cursor := ⟨tokens, 0⟩

/-- The token at the cursor. Behind the last token it is the last one, and where there are no
tokens the end of the text. -/
def current (c : Cursor) : Token :=
  match c.tokens[c.position]? with
  | some token => token
  | none => c.tokens.back?.getD ⟨.eof, .origin⟩

def kind (c : Cursor) : TokenKind := c.current.kind

def span (c : Cursor) : Span := c.current.span

def previousSpan (c : Cursor) : Span :=
  match c.position with
  | 0 => .origin
  | before + 1 => (c.tokens[before]?.map (·.span)).getD .origin

def isAtEnd (c : Cursor) : Bool := c.kind == .eof

def check (c : Cursor) (kind : TokenKind) : Bool := c.kind.sameKind kind

def peek (c : Cursor) (n : Nat) : TokenKind := (c.tokens[c.position + n]?.map (·.kind)).getD .eof

def advance (c : Cursor) : Cursor :=
  if c.isAtEnd then c else { c with position := c.position + 1 }

def eat (c : Cursor) (kind : TokenKind) : Bool × Cursor :=
  if c.check kind then (true, c.advance) else (false, c)

end Cursor

end Salita
