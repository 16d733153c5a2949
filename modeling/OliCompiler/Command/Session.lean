import OliCompiler.Command.Arguments
import OliCompiler.Files.Host
import OliCompiler.Ir.Listing
import OliCompiler.Machine
import OliCompiler.Text.Layout
import OliCompiler.Token.Listing
import OliCompiler.Tree.Outline

/-!
What the commands do. A session prints as it goes and may end early, with a complaint or without; its
report tells the exit status, all that was printed, and the complaint.
-/

namespace OliCompiler

namespace Command

/-- What is told of a failure. -/
inductive Complaint where
  | usage
  | compile (error : CompileError)
  | run (fault : Machine.Fault)
  /-- What the program printed was not taken. -/
  | output
deriving DecidableEq, Repr

/-- The code of the failure, if it has one. -/
def Complaint.code? : Complaint → Option String
  | usage | output => none
  | .compile error => some error.diagnostic.code
  | .run fault => some fault.diagnostic.code

/-- The end of a command. -/
structure Report where
  status : Nat
  output : String
  complaint : Option Complaint
deriving DecidableEq, Repr

/-- How a session ends before its last line: with a status alone, or with a complaint. -/
inductive Ending where
  | exit (status : Nat)
  | complain (complaint : Complaint)
deriving DecidableEq, Repr

/-- A session: the text printed is its state. -/
abbrev Session (m : Type → Type) := ExceptT Ending (StateT String m)

variable {m : Type → Type} [Monad m] {α : Type}

/-- Prints a line. -/
def say (line : String) : Session m Unit :=
  modify fun output => output ++ line ++ "\n"

/-- Does what may fail, and ends the session if it does. Failures can be told or kept quiet. -/
def attempt (tell : Bool) (action : ExceptT CompileError m α) : Session m α := do
  match ← ExceptT.lift (StateT.lift action.run) with
  | .ok value => return value
  | .error error =>
    if tell then throw (.complain (.compile error)) else throw (.exit 1)

/-- What was computed without a host, as an action. -/
def settled (result : Except CompileError α) : ExceptT CompileError m α :=
  ExceptT.mk (pure result)

/-- Reads a source file, whose path has to be that of one. -/
def load (host : Host m) (input : String) : ExceptT CompileError m String := do
  if Path.isSource input then
    host.readSource input
  else
    throw (.extension input)

def buildFile (host : Host m) (input : String) (directory : Option String) (options : BuildOptions) :
    Session m Unit := do
  let source ← attempt options.reportsErrors (load host input)
  if options.reportsProgress then
    say ("Compiling " ++ input ++ "...")
  if options.emitTokens then
    say "\n=== Tokens ==="
    (scan source).tokens.forM fun token => say token.shortLine
  let compilation ← attempt options.reportsErrors (settled (compile source))
  if options.emitTree then
    say "\n=== AST ==="
    say (compilation.program.outline.layout 0)
  if options.emitCode then
    say "\n=== Oli IR ==="
    say compilation.module.listing
  let output := Path.output input directory
  attempt options.reportsErrors (host.writeOutput output compilation.llvm)
  if options.reportsProgress then
    say ("Wrote " ++ output)
    let elapsed ← ExceptT.lift (StateT.lift host.elapsed)
    say ("Successfully compiled in " ++ elapsed ++ " seconds")

def checkFile (host : Host m) (input : String) : Session m Unit := do
  let source ← attempt true (load host input)
  say ("Checking " ++ input ++ "...")
  let compilation ← attempt true (settled (compile source))
  let program := compilation.program
  say ("No errors found! (" ++ toString (program.functions.length + 1) ++ " function(s), " ++
    toString program.globals.length ++ " global(s))")

def listTokens (host : Host m) (input : String) : Session m Unit := do
  let source ← attempt true (load host input)
  (scan source).tokens.forM fun token => say token.columnLine
  let _ ← attempt true (settled (tokenize source))

def outlineFile (host : Host m) (input : String) : Session m Unit := do
  let source ← attempt true (load host input)
  let program ← attempt true (settled (parseSource source))
  say (program.outline.layout 0)

/-- The exit status for a value: its low eight bits. -/
def statusOf (value : Int32) : Nat := (value.toInt % 256).toNat

def runFile (host : Host m) (input : String) : Session m Unit := do
  let source ← attempt true (load host input)
  let compilation ← attempt true (settled (compile source))
  match Machine.run compilation.module {} with
  | .ok execution =>
    let (text, complete) := execution.takenWithin (← ExceptT.lift (StateT.lift host.room))
    modify fun output => output ++ text
    if complete then throw (.exit (statusOf execution.exitCode)) else throw (.complain .output)
  | .error fault => throw (.complain (.run fault))

def session (host : Host m) : Command → Session m Unit
  | .build input directory options => buildFile host input directory options
  | .inspect .check input => checkFile host input
  | .inspect .tokenize input => listTokens host input
  | .inspect .parse input => outlineFile host input
  | .inspect .run input => runFile host input

/-- The report of an ended session. -/
def report : Except Ending Unit × String → Report
  | (.ok (), output) => ⟨0, output, none⟩
  | (.error (.exit status), output) => ⟨status, output, none⟩
  | (.error (.complain complaint), output) => ⟨1, output, some complaint⟩

/-- The version that the command tells. -/
def versionLine : String := "olc 0.1.0\n"

/-- The help that the command gives. -/
def helpText : String :=
  Text.unlines
    ["Usage: olc build [-o DIR] [--emit-tokens] [--emit-ast] [--emit-ir] [-q] [-s] FILE",
      "       olc check FILE",
      "       olc tokenize FILE",
      "       olc parse FILE",
      "       olc run FILE"]

/-- Does what is asked for, or tells why that is nothing. -/
def perform (host : Host m) : Except Refusal Command → m Report
  | .ok command => do
    let ended ← StateT.run (ExceptT.run (session host command)) ""
    return report ended
  | .error .help => pure ⟨0, helpText, none⟩
  | .error .version => pure ⟨0, versionLine, none⟩
  | .error .usage => pure ⟨2, "", some .usage⟩

/-- Does what the arguments ask for. -/
def execute (host : Host m) (args : List String) : m Report := perform host (ofArgs args)

end Command

end OliCompiler
