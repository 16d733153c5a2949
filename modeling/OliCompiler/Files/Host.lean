import OliCompiler.Compile
import OliCompiler.Files.Tree

/-!
What a compilation asks of the place where it runs, and the compilation of a file by those means. The
place is the real one or a tree of files.
-/

namespace OliCompiler

/-- The means to read and write files, to print what a program has printed, and to tell the time that has
passed. -/
structure Host (m : Type → Type) where
  /-- The text of a file, if it can be read and is UTF-8. -/
  readText : String → m (Option String)
  /-- Writes a text to a file, making the directories above it; tells whether that succeeded. -/
  writeText : String → String → m Bool
  /-- How many bytes of a program's output are taken; there need not be a bound. -/
  room : m (Option Nat)
  /-- The seconds since the start, as they are reported. -/
  elapsed : m String

namespace Host

variable {m : Type → Type} [Monad m]

/-- Reads a source file. -/
def readSource (host : Host m) (path : String) : ExceptT CompileError m String := do
  match ← host.readText path with
  | some source => return source
  | none => throw (.io .read path)

/-- Writes a compiled file. -/
def writeOutput (host : Host m) (path llvm : String) : ExceptT CompileError m Unit := do
  if ← host.writeText path llvm then
    return ()
  else
    throw (.io .write path)

/-- Compiles a file to the path that its own path gives; gives that path. -/
def compileFile (host : Host m) (input : String) (directory : Option String) :
    ExceptT CompileError m String := do
  let source ← host.readSource input
  let compilation ← ExceptT.mk (pure (compile source))
  let output := Path.output input directory
  host.writeOutput output compilation.llvm
  return output

end Host

namespace FileTree

/-- A tree of files as a place to compile in, where all output is taken and no time passes that could be
told. -/
def host : Host (StateM FileTree) where
  readText path := do return (← get).readText path
  writeText path text := modifyGet fun tree => tree.writeText path text
  room := return none
  elapsed := return "T"

end FileTree

end OliCompiler
