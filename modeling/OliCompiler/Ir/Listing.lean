import OliCompiler.Ir
import OliCompiler.Text.Layout
import OliCompiler.Text.Quoted

/-!
The readable listing of intermediate code: one line for each global, block, instruction and
terminator, with a blank line behind the globals and behind each function.
-/

namespace OliCompiler.Ir

open Text (commaSeparated)

def Constant.listing : Constant → String
  | int value => toString value.toInt
  | .text value => Text.quote value

def Global.listing (global : Global) : String :=
  (if global.constant then "const @" else "global @") ++ global.name ++ ": " ++ global.ty.text ++
    " = " ++ global.init.listing

/-- What an instruction does, without its result. -/
def Op.listing : Op → String
  | arith op left right => op.mnemonic ++ " " ++ left.text ++ ", " ++ right.text
  | compare op left right =>
    "icmp " ++ op.mnemonic ++ " " ++ left.text ++ ", " ++ right.text
  | widen value ty => "zext " ++ value.text ++ " to " ++ ty.text
  | slot ty => "alloca " ++ ty.text
  | load address => "load " ++ address.text
  | store address value => "store " ++ address.text ++ ", " ++ value.text
  | call callee args => "call " ++ callee ++ "(" ++ commaSeparated (args.map (·.text)) ++ ")"

/-- The result of an instruction as an assignment that opens its line. -/
def assigned : Option Reg → String
  | some reg => reg.text ++ " = "
  | none => ""

def Instr.listing (instr : Instr) : String := assigned instr.result ++ instr.op.listing

def Terminator.listing : Terminator → String
  | ret value => "ret " ++ value.text
  | jump target => "br " ++ target.text
  | branch condition yes no => "br " ++ condition.text ++ ", " ++ yes.text ++ ", " ++ no.text
  | unreachable => "unreachable"

/-- The line that opens a block: its number, with its hint as a comment. -/
def Block.heading (block : Block) : String :=
  "  " ++ block.id.text ++ ":" ++
    match block.hint with
    | some hint => " ; " ++ hint
    | none => ""

def Block.listing (block : Block) : List String :=
  block.heading :: block.instrs.map (fun instr => "    " ++ instr.listing) ++
    block.terminator.toList.map fun terminator => "    " ++ terminator.listing

namespace Function

/-- The parameters in the heading; an external function has no registers for them. -/
def parameterListing (function : Function) : String :=
  let params := function.params.map fun (reg, ty) =>
    if function.external then ty.text else ty.text ++ " " ++ reg.text
  "(" ++ commaSeparated params ++ (if function.variadic then ", ..." else "") ++ ")"

def listing (function : Function) : List String :=
  let heading := function.name ++ " " ++ function.parameterListing ++ " -> " ++
    function.result.text ++ " "
  if function.external then
    ["declare " ++ heading]
  else
    ("define " ++ heading ++ "\x7b") :: function.blocks.flatMap Block.listing ++ ["\x7d", ""]

end Function

namespace Module

def listingLines (module : Module) : List String :=
  ["module " ++ module.name, ""] ++ module.globals.map Global.listing ++
    (if module.globals.isEmpty then [] else [""]) ++ module.functions.flatMap Function.listing

/-- The listing of a module. -/
def listing (module : Module) : String := Text.unlines module.listingLines

end Module

end OliCompiler.Ir
