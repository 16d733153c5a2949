import OliCompiler.Compile.Error
import OliCompiler.Ir.Llvm
import OliCompiler.Lower
import OliCompiler.Parse.Program
import OliCompiler.Token.Scan

/-!
The stages of a compilation in a row. A stage is entered only if those before it found no fault.
-/

namespace OliCompiler

/-- What a successful compilation gives. -/
structure Compilation where
  program : Program
  module : Ir.Module

namespace Compilation

/-- The LLVM assembly of the program. -/
def llvm (compilation : Compilation) : String := compilation.module.llvm

end Compilation

/-- The tokens of a source text that has no lexical fault. -/
def tokenize (source : String) : Except CompileError (List Token) :=
  let scanned := scan source
  if scanned.errors.isEmpty then .ok scanned.tokens else .error (.lexical scanned.errors)

/-- The program that a source text spells. -/
def parseSource (source : String) : Except CompileError Program := do
  (parse (← tokenize source)).mapError .parse

/-- Compiles a source text. -/
def compile (source : String) : Except CompileError Compilation := do
  let program ← parseSource source
  let module ← (lower program).mapError .lower
  return ⟨program, module⟩

end OliCompiler
