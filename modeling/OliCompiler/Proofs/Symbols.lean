import OliCompiler.Proofs.Reordering
import OliCompiler.Proofs.Scope.Acceptance

/-!
The symbols of a module: its functions and its globals, which share one namespace. The rules of scope
keep the names of a program apart from each other, from `main` and from the printer, so the symbols of
its module are distinct unless the program uses the name of the format.
-/

namespace OliCompiler

namespace Ir.Module

/-- The names that the assembly of a module defines or declares, each on a line of its own. -/
def symbols (module : Module) : List String :=
  module.functions.map Ir.Function.name ++ module.globals.map Global.name

end Ir.Module

/-- The names of the functions and globals of a program, apart from `main`. -/
def Program.symbolNames (program : Program) : List String :=
  program.functions.map (·.name.name) ++ program.globals.map (·.name.name)

variable {program : Program} {module : Ir.Module}

theorem wellScoped_of_lower (lowered : lower program = .ok module) : program.WellScoped := by
  have none : program.faults.head? = none := by
    rw [← faultOf_resolve, ← faultOf_lower, lowered]
    rfl
  exact Program.faults_eq_nil.mp (List.head?_eq_none_iff.mp none)

/-- The symbols of a module are those of its program and three of its own. -/
theorem lower_symbols (lowered : lower program = .ok module) :
    module.functions.map Ir.Function.name =
        printerName :: entryName :: program.functions.map (·.name.name) ∧
      module.globals.map Ir.Global.name = formatName :: program.globals.map (·.name.name) := by
  obtain ⟨main, settled, settles, _, _, shape⟩ := Lower.lower_eq_ok lowered
  obtain ⟨entry, others, functions, lowersMain, lowers⟩ := shape.functions
  have names := congrArg (List.map Prod.fst) (settled_signatures settles.functions)
  rw [List.map_map, List.map_map] at names
  constructor
  · rw [functions, List.map_cons, List.map_cons, Lower.main_name lowersMain,
      Lower.names_lowered lowers]
    exact congrArg (printerName :: entryName :: ·) names
  · rw [shape.globals, ← settled_globals settles.globals]
    simp [Lower.formatGlobal, Lower.zeroGlobal]

theorem Program.WellScoped.symbolNames_nodup (rules : program.WellScoped) :
    program.symbolNames.Nodup := by
  refine rules.functionsDistinct.append rules.globalsDistinct fun name ofFunction ofGlobal => ?_
  obtain ⟨function, member, rfl⟩ := List.mem_map.mp ofFunction
  obtain ⟨binding, present, same⟩ := List.mem_map.mp ofGlobal
  exact rules.apart binding present function member same

theorem Program.WellScoped.available (rules : program.WellScoped) :
    ∀ name ∈ program.symbolNames, Available name := by
  refine List.forall_mem_append.mpr ⟨?_, ?_⟩
  · exact List.forall_mem_map.mpr rules.functions
  · exact List.forall_mem_map.mpr rules.globals

/-- The symbols of the module of an accepted program are distinct exactly if no function and no global
of the program has the name of the format. -/
theorem lower_symbols_nodup_iff (lowered : lower program = .ok module) :
    module.symbols.Nodup ↔ formatName ∉ program.symbolNames := by
  have rules := wellScoped_of_lower lowered
  obtain ⟨functions, globals⟩ := lower_symbols lowered
  have order : module.symbols.Perm
      (formatName :: printerName :: entryName :: program.symbolNames) := by
    rw [Ir.Module.symbols, functions, globals]
    exact List.perm_middle
  have entry : entryName ∉ program.symbolNames := fun member => (rules.available _ member).notEntry rfl
  have printer : printerName ∉ entryName :: program.symbolNames := by
    refine List.not_mem_cons_of_ne_of_not_mem Lower.printer_ne_entry fun member => ?_
    exact (rules.available _ member).notPrinter rfl
  have apart : formatName ≠ printerName ∧ formatName ≠ entryName := by decide
  rw [order.nodup_iff, List.nodup_cons, List.nodup_cons, List.nodup_cons]
  simp only [List.mem_cons, apart.1, apart.2, false_or]
  exact ⟨And.left, fun free => ⟨free, by simpa using printer, entry, rules.symbolNames_nodup⟩⟩

section

private def returning (name : String) : Function where
  name := ⟨name, default⟩
  params := []
  body := [.return (.int 0 default)]
  span := default

/-- A program with a global of some name and a function that is not `main`. -/
def holding (name : String) : Program where
  functions := [returning "helper"]
  globals := [⟨⟨name, default⟩, .int 1 default⟩]
  main := some (returning entryName)

theorem lower_symbols_nodup_iff_holding : ∃ module, lower (holding "total") = .ok module ∧
    (module.symbols.Nodup ↔ formatName ∉ (holding "total").symbolNames) := by
  have accepted : (lower (holding "total")).isOk = true := by decide +kernel
  obtain ⟨module, lowered⟩ := eq_ok_of_isOk accepted
  exact ⟨module, lowered, lower_symbols_nodup_iff lowered⟩

/-- A global with the name of the format is accepted, and its symbol then stands twice in the module. -/
theorem not_forall_symbols_nodup :
    ¬∀ (program : Program) (module : Ir.Module), lower program = .ok module →
      module.symbols.Nodup := by
  intro distinct
  have accepted : (lower (holding formatName)).isOk = true := by decide +kernel
  obtain ⟨module, lowered⟩ := eq_ok_of_isOk accepted
  have globals := (lower_symbols lowered).2
  have nodup := (distinct _ _ lowered).sublist (List.sublist_append_right _ _)
  rw [globals] at nodup
  exact (List.nodup_cons.mp nodup).1 List.mem_cons_self

end

end OliCompiler
