import OliCompiler.Parse.Error
import OliCompiler.Tree

/-!
A cursor in a list of tokens, and the moves of a reader that carries one. The list ends at its first
end of file, which is never passed; nothing behind it can be seen.
-/

namespace OliCompiler

/-- The tokens passed, the one passed last in front; those ahead; and the end of the file. -/
structure Cursor where
  passed : List Token
  ahead : List Token
  eof : Token
deriving DecidableEq, Repr

namespace Cursor

/-- The end of a list of tokens: its first end of file or, if it has none, one that stands where its
last token ends. -/
def eofOf (tokens : List Token) : Token :=
  match tokens.find? fun token => token.kind = .endOfFile with
  | some token => token
  | none =>
    match tokens.getLast? with
    | some last => ⟨.endOfFile, none, last.position, .point last.span.stop⟩
    | none => ⟨.endOfFile, none, .first, .point 0⟩

/-- The cursor before the first token. -/
def ofTokens (tokens : List Token) : Cursor :=
  ⟨[], tokens.takeWhile fun token => token.kind ≠ .endOfFile, eofOf tokens⟩

/-- The token ahead. -/
def current (cursor : Cursor) : Token := cursor.ahead.headD cursor.eof

/-- The token behind the one ahead. -/
def following (cursor : Cursor) : Token := cursor.ahead.tail.headD cursor.eof

/-- The cursor behind one more token; it stays before the end of file. -/
def advance (cursor : Cursor) : Cursor :=
  match cursor.ahead with
  | [] => cursor
  | token :: ahead => ⟨token :: cursor.passed, ahead, cursor.eof⟩

/-- The line of the first token passed that starts where `span` does. -/
def lineOf (cursor : Cursor) (span : Span) : UInt32 :=
  match cursor.passed.reverse.find? fun token => token.span.start = span.start with
  | some token => token.line
  | none => cursor.current.line

end Cursor

/-- A reader of tokens. After a fault the cursor stays where the fault was met. -/
abbrev Parser := EStateM ParseError Cursor

namespace Parser

variable {α : Type}

/-- The token ahead, which is not passed. -/
def peek : Parser Token := do return (← get).current

/-- The token behind the one ahead; neither is passed. -/
def peekFollowing : Parser Token := do return (← get).following

/-- Passes the token ahead and gives it. -/
def advance : Parser Token :=
  modifyGet fun cursor => (cursor.current, cursor.advance)

/-- Stops with a fault at a token. -/
def fail (cause : ParseError.Cause) (token : Token) : Parser α :=
  throw ⟨cause, token.line, token.span⟩

/-- Stops because the token ahead is not what is expected. -/
def unexpected (expected : ParseError.Expectation) : Parser α := do
  let token ← peek
  fail (.unexpected expected token.kind) token

/-- Whether the token ahead is of a kind. -/
def check (kind : Token.Kind) : Parser Bool := do return (← peek).kind = kind

/-- Passes a token of a kind, which must be ahead. -/
def expect (kind : Token.Kind) : Parser Token := do
  if ← check kind then advance else unexpected (.token kind)

/-- Passes the token ahead if it is of a kind; tells whether it was. -/
def consume (kind : Token.Kind) : Parser Bool := do
  if ← check kind then
    let _ ← advance
    return true
  else
    return false

/-- Reads an identifier. -/
def ident : Parser Ident := do
  if ← check .identifier then
    let token ← advance
    return ⟨token.text, token.span⟩
  else
    unexpected .identifier

/-- Reads a name that is declared; a keyword in its place is a fault of its own. -/
def declaredName (role : ParseError.Role) : Parser Ident := do
  let token ← peek
  match token.kind with
  | .keyword word => fail (.reservedName word role) token
  | _ => ident

end Parser

end OliCompiler
