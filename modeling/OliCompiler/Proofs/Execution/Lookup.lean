import OliCompiler.Proofs.Execution.Expressions
import OliCompiler.Proofs.Lowering.Lookup

/-!
What the tables of a lowered module find: the printer with its format, `main`, and each function of the
program.
-/

namespace OliCompiler.Machine

open Ir Evaluation Lower

variable {program : Scoped.Program} {module : Ir.Module}

theorem routine_of_function {name : String} {function : Ir.Function}
    (found : module.function? name = some function) :
    ∃ routine, (Image.ofModule module).routine? name = some routine ∧ routine.function = function := by
  have listed := Image.map_function_routine? (.ofModule module) name
  exact Option.map_eq_some_iff.mp (listed.trans found)

theorem routine_main (shape : ModuleOf program module) :
    ∃ routine code, (Image.ofModule module).routine? entryName = some routine ∧
      MainCode program (.label ⟨0⟩ "entry" :: code) ∧
      routine.function = codeFunction entryName [] (.label ⟨0⟩ "entry" :: code) := by
  obtain ⟨main, found, _, lowers, _, rfl⟩ := function?_main shape
  obtain ⟨routine, known, same⟩ := routine_of_function found
  cases lowers with
  | mk all globals body => exact ⟨routine, _, known, .mk all globals body, same⟩

/-- The routine of a declared function has the code of a function of that name and arity. -/
theorem routine_declared (settled : program.WellScoped) (shape : ModuleOf program module)
    {callee : String} {arity : Nat} (declared : (callee, arity) ∈ program.symbols.functions) :
    ∃ function ∈ program.functions, function.name = callee ∧ function.arity = arity ∧
      ∃ routine code, (Image.ofModule module).routine? callee = some routine ∧
        FunctionCode function (.label ⟨0⟩ "entry" :: code) ∧
        routine.function =
          codeFunction callee (paramRegs arity) (.label ⟨0⟩ "entry" :: code) := by
  obtain ⟨function, member, same⟩ := List.mem_map.mp declared
  obtain ⟨rfl, rfl⟩ := Prod.mk.inj same
  obtain ⟨_, found, _, lowers, _, rfl⟩ := function?_function settled shape member
  obtain ⟨routine, known, same⟩ := routine_of_function found
  refine ⟨function, member, rfl, rfl, routine, ?_⟩
  cases lowers with
  | mk all body => exact ⟨_, known, .mk all body, same⟩

theorem printed_line (shape : ModuleOf program module) (value : Int32) :
    printed module [.ptr (.global formatName), .int value] = .ok (lineOf value) := by
  have format : formatOf module (some (.ptr (.global formatName))) = printFormat := by
    simp [formatOf, Module.global?, shape.globals, formatGlobal]
  have expanded : expand printFormat.toList [.int value] =
      some ((toString value.toInt).toList ++ ['\n']) := by
    have chars : printFormat.toList = ['%', 'd', '\n'] := by decide
    simp [chars, expand]
  simp only [printed, List.head?_cons, List.tail_cons, format, expanded]
  simp [lineOf]

/-- The printer prints each integer on a line of its own. -/
theorem prints_lines (shape : ModuleOf program module) : PrintsLines (.ofModule module) := by
  intro maxDepth store depth value
  obtain ⟨routine, known, same⟩ := routine_of_function (function?_printer shape)
  have external : routine.function.external = true := congrArg Ir.Function.external same
  have line : printed (Image.ofModule module).module _ = _ := printed_line shape value
  simp [enter, known, external, line, bind, Except.bind, pure, Except.pure]

end OliCompiler.Machine
