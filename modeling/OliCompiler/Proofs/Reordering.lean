import OliCompiler.Proofs.Correctness
import OliCompiler.Proofs.Lowering.Alone
import OliCompiler.Proofs.Lowering.Lookup
import OliCompiler.Proofs.Scope.Reordering

/-!
The order in which a program lists its functions means nothing. A module with the functions in another
order has the same function of each name, and a run finds functions by their names only.
-/

namespace OliCompiler

open Ir

namespace Machine

variable {image image' : Image} {depth : Nat}

/-- Whether a run finds the same in two modules. -/
structure Image.Agrees (image image' : Image) : Prop where
  globals : image'.module.globals = image.module.globals
  routines : ∀ name, image'.routine? name = image.routine? name

theorem Image.agrees_ofModule {module module' : Module} (globals : module'.globals = module.globals)
    (functions : ∀ name, module'.function? name = module.function? name) :
    (ofModule module).Agrees (ofModule module') where
  globals := globals
  routines name := by rw [routine?_ofModule, routine?_ofModule, functions]

theorem printed_congr {module module' : Module} (globals : module'.globals = module.globals)
    (args : List Value) : printed module' args = printed module args := by
  simp only [printed, formatOf, Module.global?, globals]

theorem enter_congr (agrees : image.Agrees image') (store : Store) (level : Nat) (name : String)
    (args : List Value) :
    enter image' depth store level name args = enter image depth store level name args := by
  simp only [enter, agrees.routines, printed_congr agrees.globals]

theorem Config.execute_congr (agrees : image.Agrees image') (config : Config) (instr : Instr) :
    config.execute image' depth instr = config.execute image depth instr := by
  simp only [execute, enter_congr agrees]

theorem Config.step_congr (agrees : image.Agrees image') (config : Config) :
    config.step image' depth = config.step image depth := by
  simp only [step, execute_congr agrees]

theorem runFrom_congr (agrees : image.Agrees image') (limits : Limits) (steps : Nat)
    (config : Config) :
    runFrom image' limits steps config = runFrom image limits steps config := by
  induction steps generalizing config with
  | zero => rfl
  | succ steps ih => simp only [runFrom, Config.step_congr agrees, ih]

/-- Modules with the same globals and the same function of each name run alike. -/
theorem run_congr {module module' : Module} (globals : module'.globals = module.globals)
    (functions : ∀ name, module'.function? name = module.function? name) (limits : Limits) :
    run module' limits = run module limits := by
  have agrees := Image.agrees_ofModule globals functions
  have store : Store.initial module' = Store.initial module := by simp only [Store.initial, globals]
  simp only [run, store, enter_congr agrees, runFrom_congr agrees]

end Machine

namespace Ir.Module

variable {module module' : Module}

/-- Where names are distinct, the function of a name is the only one that has it. -/
theorem function?_eq_some_iff (distinct : (module.functions.map Ir.Function.name).Nodup)
    {name : String} {function : Ir.Function} :
    module.function? name = some function ↔ function ∈ module.functions ∧ function.name = name := by
  have sound : ∀ {first}, module.function? name = some first →
      first ∈ module.functions ∧ first.name = name := fun found =>
    ⟨List.mem_of_find?_eq_some found, by simpa using List.find?_some found⟩
  constructor
  · exact sound
  · rintro ⟨member, rfl⟩
    cases found : module.function? function.name with
    | none =>
      have absent := List.find?_eq_none.mp found function member
      exact absurd (decide_eq_true rfl) absent
    | some first =>
      obtain ⟨present, same⟩ := sound found
      exact congrArg some (List.inj_on_of_nodup_map distinct present member same)

/-- Functions with distinct names are found by their names in any order. -/
theorem function?_perm (permuted : module'.functions.Perm module.functions)
    (distinct : (module.functions.map Ir.Function.name).Nodup) (name : String) :
    module'.function? name = module.function? name := by
  have distinct' : (module'.functions.map Ir.Function.name).Nodup :=
    (permuted.map Ir.Function.name).nodup_iff.mpr distinct
  ext function
  rw [function?_eq_some_iff distinct, function?_eq_some_iff distinct', permuted.mem_iff]

end Ir.Module

namespace Lower

theorem names_lowered {functions : List Scoped.Function} {others : List Ir.Function}
    (lowers : List.Forall₂ LowersTo functions others) :
    others.map Ir.Function.name = functions.map Scoped.Function.name := by
  induction lowers with
  | nil => rfl
  | cons first _ ih =>
    obtain ⟨_, _, _, rfl⟩ := first
    rw [List.map_cons, List.map_cons, ih]
    rfl

/-- The functions of a lowered module have distinct names. -/
theorem function_names_nodup {program : Scoped.Program} {module : Module}
    (settled : program.WellScoped) (shape : ModuleOf program module) :
    (module.functions.map Ir.Function.name).Nodup := by
  obtain ⟨main, others, functions, lowersMain, lowers⟩ := shape.functions
  have apart : ∀ name ∈ program.functions.map Scoped.Function.name,
      name ≠ entryName ∧ name ≠ printerName := by
    simpa [isRuntimeSymbol] using settled.apart
  rw [functions, List.map_cons, List.map_cons, main_name lowersMain, names_lowered lowers]
  refine List.nodup_cons.mpr ⟨?_, List.nodup_cons.mpr ⟨?_, settled.names⟩⟩
  · rw [List.mem_cons, not_or]
    exact ⟨printer_ne_entry, fun member => (apart _ member).2 rfl⟩
  · exact fun member => (apart _ member).1 rfl

end Lower

/-- A program with its functions in another order is accepted as well, with the same globals and the
same function of each name, and it runs alike. -/
theorem lower_perm {program : Program} {module : Module} {functions : List Function}
    (lowered : lower program = .ok module) (permuted : functions.Perm program.functions) :
    ∃ module', lower { program with functions := functions } = .ok module' ∧
      module'.globals = module.globals ∧ module'.functions.Perm module.functions ∧
      (∀ name, module'.function? name = module.function? name) ∧
      ∀ limits, Machine.run module' limits = Machine.run module limits := by
  obtain ⟨main, settled, settles, resolved, wellScoped, shape⟩ := Lower.lower_eq_ok lowered
  obtain ⟨others, resolved', permuted'⟩ := resolve_perm resolved permuted
  obtain ⟨module', lowered', _⟩ := Lower.lower_of_resolve resolved'
  have made : Lower.program settled = .ok module := by
    rwa [lower, resolved] at lowered
  have made' : Lower.program { settled with functions := others } = .ok module' := by
    rwa [lower, resolved'] at lowered'
  obtain ⟨globals, listed⟩ := Lower.program_perm permuted' made made'
  have same : ∀ name, module'.function? name = module.function? name :=
    Module.function?_perm listed (Lower.function_names_nodup wellScoped shape)
  exact ⟨module', lowered', globals, listed, same, Machine.run_congr globals same⟩

section

private def callOf (callee : String) : Expr :=
  .call ⟨callee, default⟩
    [.binary (.arith .sub) (.var ⟨"n", default⟩) (.int 1 default)] default

private def alternating (name other : String) (last : Int32) : Function where
  name := ⟨name, default⟩
  params := [⟨"n", default⟩]
  body := [
    .if (.binary (.compare .eq) (.var ⟨"n", default⟩) (.int 0 default))
      [.return (.int last default)] .none,
    .return (callOf other)]
  span := default

/-- Two functions that call each other, and a `main` that calls one of them. -/
def parity : Program where
  functions := [alternating "even" "odd" 1, alternating "odd" "even" 0]
  globals := [⟨⟨"n", default⟩, .int 8 default⟩]
  main := some {
    name := ⟨entryName, default⟩
    params := []
    body := [.return (callOf "odd")]
    span := default }

theorem lower_perm_parity : ∃ module, lower parity = .ok module ∧
    parity.functions.reverse.Perm parity.functions ∧
    ∃ module', lower { parity with functions := parity.functions.reverse } = .ok module' ∧
      module'.globals = module.globals ∧ module'.functions.Perm module.functions ∧
      (∀ name, module'.function? name = module.function? name) ∧
      ∀ limits, Machine.run module' limits = Machine.run module limits := by
  have accepted : (lower parity).isOk = true := by decide +kernel
  obtain ⟨module, lowered⟩ := eq_ok_of_isOk accepted
  have permuted := List.reverse_perm parity.functions
  exact ⟨module, lowered, permuted, lower_perm lowered permuted⟩

end

end OliCompiler
