import OliCompiler.Proofs.Lowering.Module
import OliCompiler.Proofs.Texts.Operands

/-!
Modules whose texts can be read: their names, labels and operands are whole fields of their lines, or
parts of one.
-/

namespace OliCompiler.Ir

open Text (Whole)

/-- Whether the operands of an operation can be read, and it gives an integer if it has a type. -/
def Op.Legible : Op → Prop
  | .arith _ left right | .compare _ left right | .store left right => left.Legible ∧ right.Legible
  | .widen value ty => value.Legible ∧ ty = .i32
  | .slot ty => ty = .i32
  | .load address => address.Legible
  | .call callee args => Whole callee ∧ ∀ arg ∈ args, arg.Legible

def Terminator.Legible : Terminator → Prop
  | .ret value | .branch value _ _ => value.Legible
  | .jump _ | .unreachable => True

/-- Whether the hint of a block can be told from the number behind it in its label. -/
def Block.Labelled (block : Block) : Prop :=
  ∃ hint, block.hint = some hint ∧ Whole hint ∧ Undigited hint

structure Block.Legible (block : Block) : Prop where
  labelled : block.Labelled
  instrs : ∀ instr ∈ block.instrs, instr.op.Legible
  terminator : ∃ terminator, block.terminator = some terminator ∧ terminator.Legible

/-- Whether a function is one of integers, with blocks that can be read. -/
structure Function.Legible (function : Function) : Prop where
  name : Whole function.name
  params : ∀ param ∈ function.params, param.2 = .i32
  result : function.result = .i32
  external : function.external = false
  variadic : function.variadic = false
  entered : function.blocks ≠ []
  blocks : ∀ block ∈ function.blocks, block.Legible

/-- Whether a module has the printer and its format, integers of some names as its other globals, and
other functions that can be read. -/
structure Module.Legible (module : Module) (names : List String) (defined : List Function) : Prop where
  name : Whole module.name
  globals : module.globals = Lower.formatGlobal :: names.map Lower.zeroGlobal
  spelled : ∀ name ∈ names, Whole name
  functions : module.functions = Lower.printer :: defined
  readable : ∀ function ∈ defined, function.Legible
  apart : ∀ function ∈ defined, function.name ≠ printerName

theorem Function.Legible.labelled {function : Function} (legible : function.Legible) :
    ∀ block ∈ function.blocks, block.Labelled :=
  fun block member => (legible.blocks block member).labelled

theorem Instr.eq_of_parts {instr instr' : Instr} (result : instr.result = instr'.result)
    (op : instr.op = instr'.op) : instr = instr' := by
  cases instr
  cases instr'
  exact congr (congrArg Instr.mk result) op

theorem Function.Legible.eq_of_parts {function function' : Function} (legible : function.Legible)
    (legible' : function'.Legible) (name : function.name = function'.name)
    (params : function.params.map Prod.fst = function'.params.map Prod.fst)
    (blocks : function.blocks = function'.blocks) : function = function' := by
  have params := Text.eq_of_map_eq params fun param member param' member' reg =>
    Prod.ext reg ((legible.params _ member).trans (legible'.params _ member').symm)
  have result := legible.result.trans legible'.result.symm
  have external := legible.external.trans legible'.external.symm
  have variadic := legible.variadic.trans legible'.variadic.symm
  cases function
  cases function'
  simp_all

theorem Module.Legible.eq_of_parts {module module' : Module} {names names' : List String}
    {defined defined' : List Function} (legible : module.Legible names defined)
    (legible' : module'.Legible names' defined') (name : module.name = module'.name)
    (globals : names = names') (functions : defined = defined') : module = module' := by
  have globals : module.globals = module'.globals := by rw [legible.globals, legible'.globals, globals]
  have functions : module.functions = module'.functions := by
    rw [legible.functions, legible'.functions, functions]
  cases module
  cases module'
  simp_all

end OliCompiler.Ir
