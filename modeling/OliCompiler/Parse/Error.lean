import OliCompiler.Source.Span
import OliCompiler.Token

/-!
The faults that stop the reading of tokens as a program. Each stands at a span and a line.
-/

namespace OliCompiler

namespace ParseError

/-- What could have stood at the place of a token. -/
inductive Expectation where
  | token (kind : Token.Kind)
  | identifier
  | expression
  /-- Behind an argument: a further argument or the end of the list. -/
  | commaOrClose
deriving DecidableEq, Repr

def Expectation.wording : Expectation → String
  | token kind => "'" ++ kind.wording ++ "'"
  | identifier => "identifier"
  | expression => "expression"
  | commaOrClose => "',' or ')'"

/-- What a declared name names. -/
inductive Role where
  | function
  | parameter
  | variable
deriving DecidableEq, Repr

def Role.wording : Role → String
  | function => "function name"
  | parameter => "function parameter name"
  | .variable => "variable name"

/-- What is wrong. -/
inductive Cause where
  | unexpected (expected : Expectation) (found : Token.Kind)
  /-- A keyword stands where a name is declared. -/
  | reservedName (word : Keyword) (role : Role)
  /-- `break` or `continue` outside every loop. -/
  | outsideLoop (word : Keyword)
  /-- Neither a function nor a variable begins here. -/
  | topLevel (found : Token.Kind)
  | duplicateMain
  | mainWithParams
  | invalidInteger (text : String)
deriving DecidableEq, Repr

namespace Cause

/-- The message without the line. -/
def wording : Cause → String
  | unexpected expected found => "expected " ++ expected.wording ++ ", but got " ++ found.wording
  | reservedName word role =>
    "'" ++ word.word ++ "' is a reserved name and cannot be used as a " ++ role.wording
  | outsideLoop word => "\"" ++ word.word ++ "\" statements can only be used inside a loop"
  | topLevel found => "unexpected " ++ found.wording ++ " at program level"
  | duplicateMain => "the entry function 'main' is defined more than once"
  | mainWithParams => "the entry function 'main' cannot take parameters"
  | invalidInteger text => "invalid integer literal '" ++ text ++ "'"

def code : Cause → String
  | unexpected _ .endOfFile => "oli::parse::unexpected_eof"
  | unexpected _ _ => "oli::parse::unexpected_token"
  | reservedName _ _ => "oli::parse::reserved_name"
  | outsideLoop _ => "oli::parse::outside_loop"
  | topLevel _ => "oli::parse::top_level"
  | duplicateMain => "oli::parse::duplicate_main"
  | mainWithParams => "oli::parse::main_params"
  | invalidInteger _ => "oli::parse::invalid_integer"

def help : Cause → Option String
  | topLevel _ =>
    some "only `fn` definitions and `let` declarations may appear at the top level"
  | _ => none

def label : Cause → String
  | unexpected _ .endOfFile => "file ends here"
  | unexpected _ found => "unexpected " ++ found.wording
  | reservedName _ _ => "reserved"
  | outsideLoop _ => "not inside a loop"
  | topLevel _ => "expected `fn` or `let`"
  | duplicateMain => "second definition"
  | mainWithParams => "parameters declared here"
  | invalidInteger _ => "not a 32-bit integer"

end Cause

end ParseError

/-- A fault in the order of tokens. -/
structure ParseError where
  cause : ParseError.Cause
  line : UInt32
  span : Span
deriving DecidableEq, Repr

namespace ParseError

def message (error : ParseError) : String :=
  error.cause.wording ++ " (line " ++ toString error.line ++ ")"

def diagnostic (error : ParseError) : Diagnostic :=
  ⟨error.message, error.cause.code, error.cause.help, [(error.cause.label, error.span)]⟩

end ParseError

end OliCompiler
