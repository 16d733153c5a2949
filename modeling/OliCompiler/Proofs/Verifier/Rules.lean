import OliCompiler.Ir
import OliCompiler.Language

/-!
What a verifier asks of a function of intermediate code. Registers are assigned once. A block uses the
registers of stack slots, those that it has assigned before and, if it is the entry block, those of the
parameters. Operands have the kind that their place asks for, and control goes on at blocks of the
function, but not at its entry.
-/

namespace OliCompiler.Ir

/-- Kinds of values: 32-bit integers, truth values and addresses. -/
inductive Kind where
  | word
  | truth
  | address
deriving DecidableEq, Repr

/-- The kind of the result of an operation; a store has none. -/
def Op.kind : Op → Option Kind
  | .arith _ _ _ | .widen _ _ | .load _ | .call _ _ => some .word
  | .compare _ _ _ => some .truth
  | .slot _ => some .address
  | .store _ _ => none

/-- The registers that the rest of a block may use besides those of stack slots. -/
abbrev Context := List (Reg × Kind)

/-- What all blocks of a function may refer to. -/
structure Surroundings where
  module : Module
  slots : List Reg
  /-- The blocks that control may go to. -/
  targets : List BlockId

section

variable (around : Surroundings) (context : Context)

def Operand.HasKind (kind : Kind) : Operand → Prop
  | .int _ => kind = .word
  | .reg register =>
    (register, kind) ∈ context ∨ (register ∈ around.slots ∧ kind = .address)
  | .global name => kind = .address ∧
      ∃ global ∈ around.module.globals, global.name = name ∧ global.ty = .i32 ∧ global.constant = false

/-- Whether a call names a function of the module and gives it an integer for each parameter. The
printer gets its format and one integer. -/
def CallAllowed (callee : String) (args : List Operand) : Prop :=
  ∃ target, around.module.function? callee = some target ∧
    if target.external then
      callee = printerName ∧
        ∃ value, args = [.global formatName, value] ∧ value.HasKind around context .word
    else
      args.length = target.params.length ∧ ∀ arg ∈ args, arg.HasKind around context .word

/-- Whether the operands of an operation that makes no stack slot have the kinds that it asks for. -/
def Op.Allowed : Op → Prop
  | .arith _ left right | .compare _ left right =>
    left.HasKind around context .word ∧ right.HasKind around context .word
  | .widen value ty => value.HasKind around context .truth ∧ ty = .i32
  | .slot _ => False
  | .load address => address.HasKind around context .address
  | .store address value =>
    address.HasKind around context .address ∧ value.HasKind around context .word
  | .call callee args => CallAllowed around context callee args

def Instr.Allowed (instr : Instr) : Prop :=
  instr.op.Allowed around context ∧ instr.result.isSome = instr.op.kind.isSome

/-- The context behind an instruction. -/
def Instr.extend (instr : Instr) : Context :=
  match instr.result, instr.op.kind with
  | some reg, some kind => (reg, kind) :: context
  | _, _ => context

/-- Whether the operands of a terminator have the kinds that it asks for, and control goes on where it
may. -/
def Terminator.Allowed (terminator : Terminator) : Prop :=
  (match terminator with
    | .ret value => value.HasKind around context .word
    | .branch condition _ _ => condition.HasKind around context .truth
    | .jump _ | .unreachable => True) ∧
  ∀ id ∈ terminator.successors, id ∈ around.targets

end

/-- Whether a block may go on with some instructions and end with a terminator. -/
def Verified (around : Surroundings) : Context → List Instr → Option Terminator → Prop
  | context, [], ending => ∃ terminator, ending = some terminator ∧ terminator.Allowed around context
  | context, instr :: instrs, ending =>
    instr.Allowed around context ∧ Verified around (instr.extend context) instrs ending

namespace Function

/-- The registers that a function assigns, its parameters first. -/
def assigned (function : Function) : List Reg :=
  function.params.map Prod.fst ++
    function.blocks.flatMap fun block => block.instrs.filterMap Instr.result

/-- The context at the start of the entry block. -/
def context (function : Function) : Context := function.params.map fun param => (param.1, .word)

/-- Whether a function of a module is well formed and has so many stack slots, which its entry block
makes before anything else. -/
structure WellFormed (module : Module) (slots : Nat) (function : Function) : Prop where
  ids : (function.blocks.map Block.id).Nodup
  names : (function.blocks.map Block.name).Nodup
  once : function.assigned.Nodup
  words : function.result = .i32 ∧ ∀ param ∈ function.params, param.2 = .i32
  blocks : ∃ (entry : Block) (others : List Block) (regs : List Reg) (instrs : List Instr),
    function.blocks = entry :: others ∧ regs.length = slots ∧
    entry.instrs = regs.map (fun reg => ⟨some reg, .slot .i32⟩) ++ instrs ∧
    Verified ⟨module, regs, others.map Block.id⟩ function.context instrs entry.terminator ∧
    ∀ block ∈ others,
      Verified ⟨module, regs, others.map Block.id⟩ [] block.instrs block.terminator

end Function

end OliCompiler.Ir
