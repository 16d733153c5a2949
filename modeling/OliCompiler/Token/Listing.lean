import OliCompiler.Text.Quoted
import OliCompiler.Token

/-!
Listings of tokens, one a line: in short, or in columns.
-/

namespace OliCompiler

namespace Text

/-- A text of at least a width, with blanks in front. -/
def padLeft (width : Nat) (text : String) : String :=
  String.ofList (List.replicate (width - text.length) ' ') ++ text

/-- A text of at least a width, with blanks behind. -/
def padRight (width : Nat) (text : String) : String :=
  text ++ String.ofList (List.replicate (width - text.length) ' ')

end Text

namespace Token

/-- The token in short: its kind, its position and its text. -/
def shortLine (token : Token) : String :=
  token.kind.name ++ " @ " ++ token.position.text ++ " = " ++ Text.quote token.text

/-- The token in columns: its position, its kind and its text. -/
def columnLine (token : Token) : String :=
  Text.padLeft 4 (toString token.position.line) ++ ":" ++
    Text.padRight 4 (toString token.position.column) ++ " " ++
    Text.padRight 20 token.kind.name ++ " " ++ Text.quote token.text

end Token

end OliCompiler
