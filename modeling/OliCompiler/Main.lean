import OliCompiler.Command.Session

/-!
The command: the session of its arguments on the files of the machine it runs on.
-/

namespace OliCompiler.Command

/-- The parent directory of a path, if it has one to be made. -/
def directoryOf? (path : String) : Option String :=
  (Path.parent? path).filter (· ≠ "")

/-- Milliseconds as seconds with three places. -/
def secondsText (milliseconds : Nat) : String :=
  let places := toString (1000 + milliseconds % 1000)
  toString (milliseconds / 1000) ++ "." ++ (places.drop 1).toString

/-- The files of the machine; time is told since `start`. -/
def machineHost (start : Nat) : Host IO where
  readText path := do
    try
      return some (← IO.FS.readFile path)
    catch _ =>
      return none
  writeText path text := do
    try
      match directoryOf? path with
      | some directory => IO.FS.createDirAll directory
      | none => pure ()
      IO.FS.writeFile path text
      return true
    catch _ =>
      return false
  room := return none
  elapsed := do return secondsText ((← IO.monoMsNow) - start)

/-- The lines that tell a failure. -/
def Complaint.lines : Complaint → List String
  | usage => ["error: wrong arguments", "", helpText]
  | .compile (.lexical errors) =>
    let error := CompileError.lexical errors
    ["Error: " ++ error.diagnostic.code, "  " ++ error.diagnostic.message] ++
      errors.map fun error => "  " ++ error.message
  | .compile error => ["Error: " ++ error.diagnostic.code, "  " ++ error.diagnostic.message]
  | .run fault => ["Error: " ++ fault.diagnostic.code, "  " ++ fault.diagnostic.message]
  | output => ["Error: ", "  Failed to write program output"]

end OliCompiler.Command

open OliCompiler.Command in
def main (args : List String) : IO UInt32 := do
  let report ← execute (machineHost (← IO.monoMsNow)) args
  let output ← IO.getStdout
  output.putStr report.output
  output.flush
  match report.complaint with
  | some complaint => complaint.lines.forM fun line => IO.eprintln line
  | none => pure ()
  return report.status.toUInt32
