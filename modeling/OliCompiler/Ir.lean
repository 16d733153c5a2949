/-!
The intermediate code: modules of globals and functions, functions of basic blocks, blocks of
instructions on virtual registers with one terminator.
-/

namespace OliCompiler.Ir

/-- A virtual register, assigned once in its function. -/
structure Reg where
  index : Nat
deriving DecidableEq, Repr, Hashable, Inhabited

def Reg.text (reg : Reg) : String := "%t" ++ toString reg.index

/-- The number of a block in its function. -/
structure BlockId where
  index : Nat
deriving DecidableEq, Repr, Hashable, Inhabited

def BlockId.text (id : BlockId) : String := "bb" ++ toString id.index

/-- Types. Values of the language are `i32`; the others serve storage and output formats. -/
inductive Ty where
  | i8
  | i32
  | ptr
  | array (element : Ty) (size : Nat)
deriving DecidableEq, Repr

def Ty.text : Ty → String
  | i8 => "i8"
  | i32 => "i32"
  | ptr => "ptr"
  | array element size => "[" ++ toString size ++ " x " ++ element.text ++ "]"

/-- An operand: a register, an integer, or the address of a global. -/
inductive Operand where
  | reg (reg : Reg)
  | int (value : Int32)
  | global (name : String)
deriving DecidableEq, Repr

def Operand.text : Operand → String
  | .reg register => register.text
  | .int value => toString value.toInt
  | .global name => "@" ++ name

/-- Operations that give an integer; division is signed. -/
inductive ArithOp where
  | add
  | sub
  | mul
  | sdiv
deriving DecidableEq, Repr

def ArithOp.mnemonic : ArithOp → String
  | add => "add"
  | sub => "sub"
  | mul => "mul"
  | sdiv => "sdiv"

/-- What two integers are compared for; the order is signed. -/
inductive Condition where
  | eq
  | ne
  | slt
  | sle
  | sgt
  | sge
deriving DecidableEq, Repr

namespace Condition

def mnemonic : Condition → String
  | eq => "eq"
  | ne => "ne"
  | slt => "slt"
  | sle => "sle"
  | sgt => "sgt"
  | sge => "sge"

/-- Whether the condition holds between two integers. -/
def holds : Condition → Int32 → Int32 → Bool
  | eq, a, b => a = b
  | ne, a, b => a ≠ b
  | slt, a, b => a < b
  | sle, a, b => a ≤ b
  | sgt, a, b => b < a
  | sge, a, b => b ≤ a

end Condition

/-- What an instruction does. -/
inductive Op where
  | arith (op : ArithOp) (left right : Operand)
  | compare (op : Condition) (left right : Operand)
  /-- A truth value as an integer of a type. -/
  | widen (value : Operand) (ty : Ty)
  /-- A new slot on the stack. -/
  | slot (ty : Ty)
  | load (address : Operand)
  | store (address value : Operand)
  | call (callee : String) (args : List Operand)
deriving DecidableEq, Repr

/-- An instruction and the register that its result goes to. -/
structure Instr where
  result : Option Reg
  op : Op
deriving DecidableEq, Repr

/-- How a block ends. -/
inductive Terminator where
  | ret (value : Operand)
  | jump (target : BlockId)
  | branch (condition : Operand) (yes no : BlockId)
  | unreachable
deriving DecidableEq, Repr

/-- The blocks that control can go to. -/
def Terminator.successors : Terminator → List BlockId
  | ret _ | unreachable => []
  | jump target => [target]
  | branch _ yes no => [yes, no]

/-- A basic block. -/
structure Block where
  id : BlockId
  hint : Option String
  instrs : List Instr
  terminator : Option Terminator
deriving DecidableEq, Repr

/-- The label of the block: its hint and its number. -/
def Block.name (block : Block) : String :=
  match block.hint with
  | some hint => hint ++ toString block.id.index
  | none => block.id.text

/-- A function. An external one is declared only and has no blocks. -/
structure Function where
  name : String
  params : List (Reg × Ty)
  result : Ty
  blocks : List Block
  external : Bool
  variadic : Bool
deriving DecidableEq, Repr

namespace Function

/-- The block where a call starts. -/
def entry? (function : Function) : Option Block := function.blocks.head?

/-- The first block of a number. -/
def block? (function : Function) (id : BlockId) : Option Block :=
  function.blocks.find? fun block => block.id = id

end Function

/-- The initial value of a global; a text is stored with a zero byte behind it. -/
inductive Constant where
  | int (value : Int32)
  | text (text : String)
deriving DecidableEq, Repr

structure Global where
  name : String
  ty : Ty
  init : Constant
  constant : Bool
deriving DecidableEq, Repr

structure Module where
  name : String
  globals : List Global
  functions : List Function
deriving DecidableEq, Repr

namespace Module

/-- The first function of a name. -/
def function? (module : Module) (name : String) : Option Function :=
  module.functions.find? fun function => function.name = name

/-- The first global of a name. -/
def global? (module : Module) (name : String) : Option Global :=
  module.globals.find? fun global => global.name = name

end Module

end OliCompiler.Ir
