import OliCompiler.Ir
import OliCompiler.Text.Layout

/-!
Intermediate code as LLVM assembly with opaque pointers. A call takes its types from the function that
it names, and a branch its label from the block; where several share a name or number, the last one
counts.
-/

namespace OliCompiler.Ir

open Text (commaSeparated)

namespace Llvm

/-- A byte as two hexadecimal digits. -/
def hexByte (byte : UInt8) : List Char :=
  let digit (n : Nat) : Char := (Nat.digitChar n).toUpper
  [digit (byte.toNat / 16), digit (byte.toNat % 16)]

/-- Whether a byte stands for itself in a literal: a visible ASCII character or the space, but not a
quote or a backslash. -/
def isPlain (byte : UInt8) : Bool :=
  32 ≤ byte && byte ≤ 126 && byte ≠ 34 && byte ≠ 92

/-- A byte as it stands in a literal. -/
def escapeByte (byte : UInt8) : List Char :=
  if isPlain byte then [Char.ofNat byte.toNat] else '\\' :: hexByte byte

/-- The characters of the literal for a list of bytes, without its quotes. -/
def escapeBytes (bytes : List UInt8) : List Char :=
  bytes.flatMap escapeByte

/-- The literal for a text: its bytes and a zero byte. -/
def literal (text : String) : String :=
  "c\"" ++ String.ofList (escapeBytes (text.toUTF8.toList ++ [0])) ++ "\""

def globalLine (global : Global) : String :=
  "@" ++ global.name ++ " = " ++
    match global.init with
    | .text text =>
      "private unnamed_addr constant " ++ global.ty.text ++ " " ++ literal text
    | .int value =>
      "internal " ++ (if global.constant then "constant " else "global ") ++ global.ty.text ++ " " ++
        toString value.toInt

/-- The types of the parameters, with an ellipsis for further arguments. -/
def parameterTypes (function : Function) : String :=
  commaSeparated (function.params.map (fun (_, ty) => ty.text) ++
    if function.variadic then ["..."] else [])

def declareLine (function : Function) : String :=
  "declare " ++ function.result.text ++ " @" ++ function.name ++ "(" ++ parameterTypes function ++ ")"

/-- The arguments of a call, each with its type; those without a parameter are integers. -/
def typedArgs : List Ty → List Operand → List String
  | _, [] => []
  | [], arg :: args => (Ty.i32.text ++ " " ++ arg.text) :: typedArgs [] args
  | ty :: tys, arg :: args => (ty.text ++ " " ++ arg.text) :: typedArgs tys args

/-- The function whose signature a call of a name has: the last one of that name. -/
def signature? (module : Module) (name : String) : Option Function :=
  module.functions.reverse.find? fun function => function.name = name

def callText (module : Module) (callee : String) (args : List Operand) : String :=
  match signature? module callee with
  | none => "call i32 @" ++ callee ++ "(" ++ commaSeparated (typedArgs [] args) ++ ")"
  | some function =>
    "call " ++ function.result.text ++ " " ++
      (if function.variadic then "(" ++ parameterTypes function ++ ") " else "") ++
      "@" ++ callee ++ "(" ++ commaSeparated (typedArgs (function.params.map (·.2)) args) ++ ")"

def opText (module : Module) : Op → String
  | .arith op left right => op.mnemonic ++ " i32 " ++ left.text ++ ", " ++ right.text
  | .compare op left right =>
    "icmp " ++ op.mnemonic ++ " i32 " ++ left.text ++ ", " ++ right.text
  | .widen value ty => "zext i1 " ++ value.text ++ " to " ++ ty.text
  | .slot ty => "alloca " ++ ty.text
  | .load address => "load i32, ptr " ++ address.text
  | .store address value => "store i32 " ++ value.text ++ ", ptr " ++ address.text
  | .call callee args => callText module callee args

def instrLine (module : Module) (instr : Instr) : String :=
  let result :=
    match instr.result with
    | some reg => reg.text ++ " = "
    | none => ""
  "  " ++ result ++ opText module instr.op

/-- The label that a branch to a block is written with: the name of the last block of that number. -/
def label (function : Function) (id : BlockId) : String :=
  match function.blocks.reverse.find? fun block => block.id = id with
  | some block => block.name
  | none => id.text

def terminatorLine (function : Function) (terminator : Terminator) : String :=
  "  " ++
    match terminator with
    | .ret value => "ret " ++ function.result.text ++ " " ++ value.text
    | .jump target => "br label %" ++ label function target
    | .branch condition yes no =>
      "br i1 " ++ condition.text ++ ", label %" ++ label function yes ++ ", label %" ++
        label function no
    | .unreachable => "unreachable"

def blockLines (module : Module) (function : Function) (block : Block) : List String :=
  (block.name ++ ":") :: block.instrs.map (instrLine module) ++
    block.terminator.toList.map (terminatorLine function)

/-- The definition of a function, with a blank line between its blocks. -/
def defineLines (module : Module) (function : Function) : List String :=
  let params := function.params.map fun (reg, ty) => ty.text ++ " " ++ reg.text
  ["", "define " ++ function.result.text ++ " @" ++ function.name ++ "(" ++ commaSeparated params ++
    ") \x7b"] ++
    ([""].intercalate (function.blocks.map (blockLines module function))) ++ ["\x7d"]

/-- Lines with a blank line in front, nothing if there are none. -/
def section? (lines : List String) : List String :=
  if lines.isEmpty then [] else "" :: lines

end Llvm

namespace Module

def llvmLines (module : Module) : List String :=
  let externals := module.functions.filter (·.external)
  let defined := module.functions.filter (!·.external)
  ["; ModuleID = '" ++ module.name ++ "'", "source_filename = \"" ++ module.name ++ "\""] ++
    Llvm.section? (module.globals.map Llvm.globalLine) ++
    Llvm.section? (externals.map Llvm.declareLine) ++
    defined.flatMap (Llvm.defineLines module)

/-- A module as LLVM assembly. -/
def llvm (module : Module) : String := Text.unlines module.llvmLines

end Module

end OliCompiler.Ir
