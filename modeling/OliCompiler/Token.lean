import OliCompiler.Language
import OliCompiler.Source.Span

/-!
Tokens: a kind, a text where the kind alone does not give it, and where the token stands. Every kind
has a name, used in listings, and a wording, used in messages.
-/

namespace OliCompiler

/-- The words of the language. -/
inductive Keyword where
  | fn
  | let
  | return
  | if
  | else
  | for
  | while
  | break
  | continue
deriving DecidableEq, Repr

namespace Keyword

def all : List Keyword :=
  [.fn, .let, .return, .if, .else, .for, .while, .break, .continue]

/-- The word itself. -/
def word : Keyword → String
  | .fn => "fn"
  | .let => "let"
  | .return => "return"
  | .if => "if"
  | .else => "else"
  | .for => "for"
  | .while => "while"
  | .break => "break"
  | .continue => "continue"

def name : Keyword → String
  | .fn => "Fn"
  | .let => "Let"
  | .return => "Return"
  | .if => "If"
  | .else => "Else"
  | .for => "For"
  | .while => "While"
  | .break => "Break"
  | .continue => "Continue"

/-- The keyword that a word is, if it is one. -/
def ofWord? (word : String) : Option Keyword :=
  all.find? fun keyword => keyword.word = word

theorem mem_all (keyword : Keyword) : keyword ∈ all := by
  cases keyword <;> decide

theorem ofWord?_word (keyword : Keyword) : ofWord? keyword.word = some keyword := by
  cases keyword <;> decide

theorem word_of_ofWord? {word : String} {keyword : Keyword} (found : ofWord? word = some keyword) :
    keyword.word = word := by
  simpa using List.find?_some found

end Keyword

/-- Whether a word can name no variable, parameter or function. -/
def isReserved (word : String) : Bool :=
  (Keyword.ofWord? word).isSome

/-- The two operators that change a variable by one. -/
inductive Step where
  | up
  | down
deriving DecidableEq, Repr

namespace Step

def all : List Step := [.up, .down]

def symbol : Step → String
  | up => "++"
  | down => "--"

def name : Step → String
  | up => "PlusPlus"
  | down => "MinusMinus"

/-- The operator that makes the step. -/
def operator : Step → BinaryOp
  | up => .arith .add
  | down => .arith .sub

end Step

namespace Token

/-- The kinds of tokens. -/
inductive Kind where
  /-- A run of digits. -/
  | integer
  | keyword (word : Keyword)
  | operator (op : BinaryOp)
  /-- The sign `=` of declarations and assignments. -/
  | assign
  | step (direction : Step)
  | openParen
  | closeParen
  | openBrace
  | closeBrace
  | comma
  | semicolon
  | identifier
  | comment
  /-- A character that starts nothing. -/
  | unknown
  | endOfFile
deriving DecidableEq, Repr, Inhabited

namespace Kind

/-- The name of a binary operator's token. -/
def operatorName : BinaryOp → String
  | .arith .add => "Plus"
  | .arith .sub => "Minus"
  | .arith .mul => "Star"
  | .arith .div => "Slash"
  | .compare .eq => "EqEq"
  | .compare .ne => "NotEq"
  | .compare .lt => "Lt"
  | .compare .gt => "Gt"
  | .compare .le => "LtEq"
  | .compare .ge => "GtEq"

/-- The name of the kind in listings. -/
def name : Kind → String
  | integer => "IntLiteral"
  | keyword word => word.name
  | operator op => operatorName op
  | assign => "Eq"
  | .step direction => direction.name
  | openParen => "LParen"
  | closeParen => "RParen"
  | openBrace => "LBrace"
  | closeBrace => "RBrace"
  | comma => "Comma"
  | semicolon => "Semicolon"
  | identifier => "Ident"
  | comment => "BlockComment"
  | unknown => "Unknown"
  | endOfFile => "Eof"

/-- The wording of the kind in messages. -/
def wording : Kind → String
  | integer => "integer"
  | keyword word => word.word
  | operator op => op.symbol
  | assign => "="
  | .step direction => direction.symbol
  | openParen => "("
  | closeParen => ")"
  | openBrace => "\x7b"
  | closeBrace => "\x7d"
  | comma => ","
  | semicolon => ";"
  | identifier => "identifier"
  | comment => "comment"
  | unknown => "unknown character"
  | endOfFile => "end of file"

def isKeyword : Kind → Bool
  | keyword _ => true
  | _ => false

/-- The binary operator that the kind stands for, if it stands for one. -/
def operator? : Kind → Option BinaryOp
  | operator op => some op
  | _ => none

def isOperator (kind : Kind) : Bool := kind.operator?.isSome

end Kind

end Token

/-- A token of a source text. Identifiers and integers carry their text. -/
structure Token where
  kind : Token.Kind
  value : Option String
  position : Position
  span : Span
deriving DecidableEq, Repr, Inhabited

namespace Token

def line (token : Token) : UInt32 := token.position.line

/-- The text carried, empty if there is none. -/
def text (token : Token) : String := token.value.getD ""

/-- The identifier that the token is, if it is one. -/
def identifier? (token : Token) : Option String :=
  if token.kind = .identifier then some token.text else none

end Token

end OliCompiler
