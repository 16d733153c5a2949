import OliCompiler.Ir
import Std.Data.HashMap

/-!
A module made ready to run: its functions by name, and the blocks of each by number. Both tables are
filled from the end, so of several entries with one key the first is found, as it is in the module.
-/

namespace OliCompiler.Machine

open Ir

/-- Blocks by their numbers. -/
def blockTable : List Block → Std.HashMap BlockId Block
  | [] => ∅
  | block :: blocks => (blockTable blocks).insert block.id block

theorem blockTable_get? (blocks : List Block) (id : BlockId) :
    (blockTable blocks)[id]? = blocks.find? fun block => block.id = id := by
  induction blocks with
  | nil => simp [blockTable]
  | cons block blocks ih =>
    by_cases same : block.id = id <;> simp [blockTable, Std.HashMap.getElem?_insert, same, ih]

/-- A function with a table of its blocks. -/
structure Routine where
  function : Ir.Function
  blocks : Std.HashMap BlockId Block
  found : ∀ id, blocks[id]? = function.block? id

namespace Routine

def ofFunction (function : Ir.Function) : Routine :=
  ⟨function, blockTable function.blocks, blockTable_get? function.blocks⟩

/-- The first block of a number. -/
def block? (routine : Routine) (id : BlockId) : Option Block := routine.blocks[id]?

theorem block?_eq (routine : Routine) (id : BlockId) :
    routine.block? id = routine.function.block? id := routine.found id

end Routine

/-- Functions by their names. -/
def routineTable : List Ir.Function → Std.HashMap String Routine
  | [] => ∅
  | function :: functions =>
    (routineTable functions).insert function.name (.ofFunction function)

theorem routineTable_eq (functions : List Ir.Function) (name : String) :
    (routineTable functions)[name]? =
      (functions.find? fun function => function.name = name).map Routine.ofFunction := by
  induction functions with
  | nil => simp [routineTable]
  | cons function functions ih =>
    by_cases same : function.name = name <;>
      simp [routineTable, Std.HashMap.getElem?_insert, same, ih]

theorem routineTable_get? (functions : List Ir.Function) (name : String) :
    ((routineTable functions)[name]?).map Routine.function =
      functions.find? fun function => function.name = name := by
  simp [routineTable_eq, Function.comp_def, Routine.ofFunction]

/-- A module with a table of its functions. -/
structure Image where
  module : Module
  routines : Std.HashMap String Routine
  found : ∀ name, (routines[name]?).map Routine.function = module.function? name

namespace Image

def ofModule (module : Module) : Image :=
  ⟨module, routineTable module.functions, routineTable_get? module.functions⟩

/-- The first function of a name. -/
def routine? (image : Image) (name : String) : Option Routine := image.routines[name]?

theorem routine?_ofModule (module : Module) (name : String) :
    (ofModule module).routine? name = (module.function? name).map Routine.ofFunction :=
  routineTable_eq module.functions name

theorem map_function_routine? (image : Image) (name : String) :
    (image.routine? name).map Routine.function = image.module.function? name := image.found name

end Image

end OliCompiler.Machine
