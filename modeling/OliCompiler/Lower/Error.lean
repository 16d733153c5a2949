import OliCompiler.Ir
import OliCompiler.Source.Span

/-!
The faults that stop the lowering of a program: names used or declared against the rules of scope, and
jumps outside loops.
-/

namespace OliCompiler

inductive LowerError where
  | undefinedVariable (name : String) (span : Span)
  | undefinedFunction (name : String) (span : Span)
  | arityMismatch (name : String) (expected found : Nat) (span : Span)
  | alreadyDeclared (name : String) (span : Span)
  | reservedName (name : String) (span : Span)
  | missingMain
  | duplicateFunction (name : String) (span : Span)
  | breakOutsideLoop (span : Span)
  | continueOutsideLoop (span : Span)
  /-- A function or global has the name of another symbol of the module. -/
  | symbolClash (name : String) (span : Span)
  /-- A block of a lowered function has no end. -/
  | unterminatedBlock (function : String) (block : Ir.BlockId)
deriving DecidableEq, Repr

namespace LowerError

def message : LowerError → String
  | undefinedVariable name _ => "undefined variable: " ++ name
  | undefinedFunction name _ => "undefined function: " ++ name
  | arityMismatch name expected found _ =>
    "function " ++ name ++ " expects " ++ toString expected ++ " argument(s), but " ++
      toString found ++ " were given"
  | alreadyDeclared name _ => "variable " ++ name ++ " already defined"
  | reservedName name _ => "'" ++ name ++ "' is a reserved name"
  | missingMain => "main function not found"
  | duplicateFunction name _ => "function " ++ name ++ " already defined"
  | breakOutsideLoop _ => "\"break\" used outside of a loop"
  | continueOutsideLoop _ => "\"continue\" used outside of a loop"
  | symbolClash name _ => "'" ++ name ++ "' clashes with another symbol in the output module"
  | unterminatedBlock function block =>
    "internal error: block " ++ block.text ++ " of function " ++ function ++ " has no terminator"

def code : LowerError → String
  | undefinedVariable _ _ => "oli::generate::undefined_variable"
  | undefinedFunction _ _ => "oli::generate::undefined_function"
  | arityMismatch _ _ _ _ => "oli::generate::arity"
  | alreadyDeclared _ _ => "oli::generate::already_declared"
  | reservedName _ _ => "oli::generate::reserved_name"
  | missingMain => "oli::generate::missing_main"
  | duplicateFunction _ _ => "oli::generate::duplicate_function"
  | breakOutsideLoop _ | continueOutsideLoop _ => "oli::generate::outside_loop"
  | symbolClash _ _ => "oli::generate::symbol_clash"
  | unterminatedBlock _ _ => "oli::generate::unterminated_block"

def help : LowerError → Option String
  | missingMain => some "every program needs an entry point: `fn main() \x7b ... \x7d`"
  | symbolClash _ _ => some "`main`, `printf`, functions and globals share one namespace"
  | _ => none

/-- Where the fault stands, with the label for that place. -/
def label? : LowerError → Option (String × Span)
  | undefinedVariable _ span => some ("not declared in this scope", span)
  | undefinedFunction _ span => some ("no function with this name", span)
  | arityMismatch _ _ _ span => some ("called here", span)
  | alreadyDeclared _ span => some ("redeclared here", span)
  | reservedName _ span => some ("reserved", span)
  | duplicateFunction _ span => some ("redefined here", span)
  | breakOutsideLoop span | continueOutsideLoop span => some ("no enclosing loop", span)
  | symbolClash _ span => some ("already used", span)
  | missingMain | unterminatedBlock _ _ => none

def span? (error : LowerError) : Option Span := error.label?.map (·.2)

def diagnostic (error : LowerError) : Diagnostic :=
  ⟨error.message, error.code, error.help, error.label?.toList⟩

end LowerError

end OliCompiler
