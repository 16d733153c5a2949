import OliCompiler.Lower.Error
import OliCompiler.Parse.Error
import OliCompiler.Token.LexicalError

/-!
The ways in which a compilation fails: in one of its stages, or at a file.
-/

namespace OliCompiler

namespace CompileError

/-- What was tried with a file. -/
inductive Access where
  | read
  | write
deriving DecidableEq, Repr

def Access.wording : Access → String
  | read => "read"
  | write => "write"

end CompileError

inductive CompileError where
  /-- The lexical faults of the source, all of them. -/
  | lexical (errors : List LexicalError)
  | parse (error : ParseError)
  | lower (error : LowerError)
  /-- The path is not that of a source file. -/
  | extension (path : String)
  | io (access : CompileError.Access) (path : String)
deriving DecidableEq, Repr

namespace CompileError

/-- The stage that failed. -/
def stage : CompileError → String
  | lexical _ => "lexer"
  | parse _ => "parser"
  | lower _ => "generator"
  | extension _ | io _ _ => "driver"

/-- What the failure shows; that of a single fault is the fault's own. -/
def diagnostic : CompileError → Diagnostic
  | lexical errors =>
    ⟨toString errors.length ++ " lexical error(s) found", LexicalError.code, none, []⟩
  | .parse error => error.diagnostic
  | lower error => error.diagnostic
  | extension path => ⟨"expected a .oli source file, got " ++ path, "oli::extension", none, []⟩
  | io access path => ⟨"failed to " ++ access.wording ++ " " ++ path, "oli::io", none, []⟩

end CompileError

end OliCompiler
