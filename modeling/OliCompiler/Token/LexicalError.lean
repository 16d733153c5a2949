import OliCompiler.Source.Span
import OliCompiler.Token

/-!
The faults of a source text below the level of tokens. Reading goes on behind each of them, so a text
can have many.
-/

namespace OliCompiler

namespace LexicalError

/-- What is wrong. -/
inductive Fault where
  | unknownCharacter (c : Char)
  /-- A literal of several digits starts with zero; `digit` is its second digit. -/
  | leadingZero (digit : Char)
  | integerOutOfRange (literal : String)
  | unterminatedComment
  /-- A step operator with no identifier before it. -/
  | danglingStep (direction : Step)
deriving DecidableEq, Repr

/-- The wording of the fault, without its place. -/
def Fault.wording : Fault → String
  | unknownCharacter c => "unknown character '" ++ c.toString ++ "'"
  | leadingZero digit =>
    "unexpected '" ++ digit.toString ++ "' after leading zero in integer literal"
  | integerOutOfRange literal =>
    "integer literal " ++ literal ++ " does not fit in a 32-bit signed integer"
  | unterminatedComment => "expected end of multiline comment \"*/\" but found end of file"
  | danglingStep direction => "'" ++ direction.symbol ++ "' must directly follow a variable name"

end LexicalError

/-- A lexical fault and where it stands. -/
structure LexicalError where
  fault : LexicalError.Fault
  position : Position
  span : Span
deriving DecidableEq, Repr

namespace LexicalError

/-- The code shared by all reports of lexical faults. -/
def code : String := "oli::lex"

def message (error : LexicalError) : String :=
  error.fault.wording ++ " (line " ++ toString error.position.line ++ ", column " ++
    toString error.position.column ++ ")"

def diagnostic (error : LexicalError) : Diagnostic :=
  ⟨error.message, code, none, [("here", error.span)]⟩

end LexicalError

end OliCompiler
