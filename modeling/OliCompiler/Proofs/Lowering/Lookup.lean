import OliCompiler.Proofs.Lowering.Module

/-!
What the names of functions mean in a lowered module: the printer, `main`, and each function of the
program.
-/

namespace OliCompiler.Lower

open Ir

variable {program : Scoped.Program} {module : Ir.Module}

/-- A function of the program is the first of its name. -/
theorem find?_function {functions : List Scoped.Function} {function : Scoped.Function}
    (names : (functions.map Scoped.Function.name).Nodup) (member : function ∈ functions) :
    functions.find? (fun other => other.name = function.name) = some function := by
  induction functions with
  | nil => cases member
  | cons first functions ih =>
    obtain ⟨absent, names⟩ := List.nodup_cons.mp names
    rcases List.mem_cons.mp member with rfl | member
    · simp
    · rw [List.find?_cons_of_neg, ih names member]
      intro same
      exact absent (List.mem_map.mpr ⟨function, member, (of_decide_eq_true same).symm⟩)

theorem find?_lowered {functions : List Scoped.Function} {others : List Ir.Function} {name : String}
    {function : Scoped.Function} (lowers : List.Forall₂ LowersTo functions others)
    (found : functions.find? (fun other => other.name = name) = some function) :
    ∃ lowered, others.find? (fun other => other.name = name) = some lowered ∧
      LowersTo function lowered := by
  induction lowers with
  | nil => cases found
  | @cons first lowered functions others one _ ih =>
    have same : lowered.name = first.name := by
      obtain ⟨_, _, _, rfl⟩ := one
      rfl
    by_cases here : first.name = name
    · rw [List.find?_cons_of_pos (by simpa using here)] at found
      obtain rfl := Option.some.inj found
      exact ⟨lowered, List.find?_cons_of_pos (by simpa [same] using here), one⟩
    · rw [List.find?_cons_of_neg (by simpa using here)] at found
      rw [List.find?_cons_of_neg (by simpa [same] using here)]
      exact ih found

theorem main_name {lowered : Ir.Function} (lowers : MainLowersTo program lowered) :
    lowered.name = entryName := by
  obtain ⟨_, _, _, rfl⟩ := lowers
  rfl

theorem printer_ne_entry : printerName ≠ entryName := by decide

theorem function?_printer (shape : ModuleOf program module) :
    module.function? printerName = some printer := by
  obtain ⟨main, others, functions, _⟩ := shape.functions
  rw [Module.function?, functions, List.find?_cons_of_pos (by simp [printer])]

theorem function?_main (shape : ModuleOf program module) :
    ∃ main, module.function? entryName = some main ∧ MainLowersTo program main := by
  obtain ⟨main, others, functions, lowers, _⟩ := shape.functions
  refine ⟨main, ?_, lowers⟩
  rw [Module.function?, functions, List.find?_cons_of_neg (by simp [printer, printer_ne_entry]),
    List.find?_cons_of_pos (by simpa using main_name lowers)]

theorem function?_function (settled : program.WellScoped) (shape : ModuleOf program module)
    {function : Scoped.Function} (member : function ∈ program.functions) :
    ∃ lowered, module.function? function.name = some lowered ∧ LowersTo function lowered := by
  obtain ⟨main, others, functions, lowersMain, lowers⟩ := shape.functions
  have apart := settled.apart function member
  simp only [isRuntimeSymbol, Bool.or_eq_false_iff, decide_eq_false_iff_not] at apart
  obtain ⟨lowered, listed, lowersTo⟩ := find?_lowered lowers (find?_function settled.names member)
  refine ⟨lowered, ?_, lowersTo⟩
  rw [Module.function?, functions, List.find?_cons_of_neg, List.find?_cons_of_neg, listed]
  · simpa [main_name lowersMain] using Ne.symm apart.1
  · simp [printer, Ne.symm apart.2]

end OliCompiler.Lower
