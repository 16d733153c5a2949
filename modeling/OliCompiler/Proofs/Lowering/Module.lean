import OliCompiler.Proofs.Lowering.Closing
import OliCompiler.Proofs.Lowering.Statements
import OliCompiler.Proofs.Scope.Settled

/-!
The module of an accepted program: the printer, its format and the globals, then `main` and the other
functions in order, each made of the code of its body.
-/

namespace OliCompiler.Lower

open Ir

/-- The function made of some code. -/
def codeFunction (name : String) (params : List Reg) (code : Code) : Ir.Function :=
  (⟨name, params, (Code.slots code).map (·, .i32), Code.blocks code⟩ : Draft).toFunction

/-- Whether every block of some code has an end. -/
def Terminated (code : Code) : Prop := ∀ block ∈ Code.blocks code, block.terminator.isSome

/-- Whether a function is the lowered form of a scoped one. -/
def LowersTo (function : Scoped.Function) (lowered : Ir.Function) : Prop :=
  ∃ code, FunctionCode function code ∧ Terminated code ∧
    lowered = codeFunction function.name (paramRegs function.arity) code

/-- Whether a function is the lowered form of the entry function of a program. -/
def MainLowersTo (program : Scoped.Program) (lowered : Ir.Function) : Prop :=
  ∃ code, MainCode program code ∧ Terminated code ∧ lowered = codeFunction entryName [] code

/-- The external function that prints. -/
def printer : Ir.Function := ⟨printerName, [(⟨0⟩, .ptr)], .i32, [], true, true⟩

/-- The constant that holds the format for printing. -/
def formatGlobal : Global :=
  ⟨formatName, .array .i8 (printFormat.utf8ByteSize + 1), .text printFormat, true⟩

/-- A global of a program, which is zero before the run. -/
def zeroGlobal (name : String) : Global := ⟨name, .i32, .int 0, false⟩

/-- The module of a scoped program. -/
structure ModuleOf (program : Scoped.Program) (module : Ir.Module) : Prop where
  globals : module.globals = formatGlobal :: program.globals.map fun global => zeroGlobal global.1
  functions : ∃ main others, module.functions = printer :: main :: others ∧
    MainLowersTo program main ∧ List.Forall₂ LowersTo program.functions others

variable {site : Site} {code : Code} {n k : Nat} {id : BlockId}
  {pending : List (BlockId × String)}

@[simp]
theorem labels_paramsCode {regs : List Reg} : Code.labels (paramsCode n regs) = [] :=
  Code.labels_inner inner_paramsCode

theorem slots_paramsCode {regs : List Reg} :
    Code.slots (paramsCode n regs) = numbered n (n + regs.length) := by
  induction regs generalizing n with
  | nil => simp [paramsCode, Code.slots, numbered_self]
  | cons reg regs ih =>
    rw [paramsCode, Code.slots, Code.slots, ih,
      ← numbered_append (Nat.le_succ n) (by simp), numbered_succ]
    simp [Nat.add_assoc, Nat.add_comm 1]

theorem params_emits {regs : List Reg} (opened : Open code id) :
    Emits (params id regs) (site.holds code n k pending) ()
      (site.holds (code ++ paramsCode n regs) (n + regs.length) k pending) := by
  induction regs generalizing code n with
  | nil =>
    rw [paramsCode, List.append_nil]
    exact emits_pure
  | cons reg regs ih =>
    have slotted := opened.slot ⟨n⟩
    have chain : Emits (params id (reg :: regs)) (site.holds code n k pending) () _ :=
      newSlot_emits.bind ((store_emits slotted (.reg ⟨n⟩) (.reg reg)).bind
        (ih (slotted.instr ⟨none, .store (.reg ⟨n⟩) (.reg reg)⟩)))
    simpa [paramsCode, Nat.add_assoc, Nat.add_comm 1] using chain

theorem initials_emits {symbols : Symbols} {globals : List (String × Scoped.Expr)}
    (opened : Open code id) (bare : Code.slots code = [])
    (settled : ∀ global ∈ globals, global.2.InScope symbols 0) :
    ∃ more n', Emits (initials id globals) (site.holds code n k pending) ()
        (site.holds (code ++ more) n' k pending) ∧ Open (code ++ more) id ∧
      Code.slots more = [] ∧ Code.labels more = [] ∧ ∀ slots, InitialsCode slots n globals more n' := by
  induction globals generalizing code n with
  | nil =>
    refine ⟨[], n, ?_, ?_, rfl, rfl, fun _ => .nil⟩
    · rw [List.append_nil]
      exact emits_pure
    · rwa [List.append_nil]
  | cons global globals ih =>
    obtain ⟨name, value⟩ := global
    obtain ⟨first, others⟩ := List.forall_mem_cons.mp settled
    have done : Computes site code n k pending (word id value) _ :=
      word_computes opened (expr_computes value opened (by simpa [bare] using first))
    obtain ⟨instrs, operand, m, emitted, shape⟩ := done
    have stored := (opened.instrs instrs).instr ⟨none, .store (.global name) operand⟩
    obtain ⟨more, n', restEmitted, openRest, slots, labels, rest⟩ :=
      ih (n := m) stored (by simp [bare, Code.slots]) others
    have chain : Emits (initials id ((name, value) :: globals)) (site.holds code n k pending) () _ :=
      emitted.bind ((store_emits (opened.instrs instrs) (.global name) operand).bind restEmitted)
    refine ⟨Code.ofInstrs instrs ++ .instr ⟨none, .store (.global name) operand⟩ :: more, n',
      by simpa using chain, by simpa using openRest, by simp [Code.slots, slots],
      by simp [Code.labels, labels], fun slots => ?_⟩
    exact .cons (shape slots (bare ▸ List.nil_prefix)) (rest slots)

theorem terminated_of_closes (closed : Code.closes false code = some false) : Terminated code :=
  (Code.ends_of_closes closed).1

theorem unterminated?_eq_none (terminated : Terminated code) :
    (site.holds code n k []).unterminated? = none := by
  have finished : (Code.blocks code).filter (fun block => block.terminator.isNone) = [] := by
    rw [List.filter_eq_nil_iff]
    intro block member
    simpa using Option.isSome_iff_ne_none.mp (terminated block member)
  simp [Builder.unterminated?, Site.holds, finished]

theorem finish_emits {name : String} {falls : Bool} {flow : Flow} (stands : Stands code falls flow) :
    finish name flow (site.holds code n k []) =
      match (site.holds (code ++ closed falls) n k []).unterminated? with
      | some block => .error (.unterminatedBlock name block)
      | none => .ok (site.holds (code ++ closed falls) n k []).finishFunction := by
  cases flow with
  | falls id =>
    cases falls with
    | true =>
      have ended : (site.holds code n k []).terminate id (.ret (.int 0)) =
          site.holds (code ++ closed true) n k [] :=
        congrArg Prod.snd (terminate_emits stands (.ret (.int 0)))
      have finished : ∀ builder : Builder Nat,
          (site.holds code n k []).terminate id (.ret (.int 0)) = builder →
          finish name (.falls id) (site.holds code n k []) =
            match builder.unterminated? with
            | some block => .error (.unterminatedBlock name block)
            | none => .ok builder.finishFunction := by
        rintro _ rfl
        rfl
      exact finished _ ended
    | false => cases stands
  | leaves =>
    cases falls with
    | true => cases stands
    | false =>
      rw [closed, if_neg Bool.false_ne_true, List.append_nil]
      rfl

/-- No block of a function is without an end when the function is closed. -/
theorem finish_eq_ok {name : String} {falls : Bool} {flow : Flow} (stands : Stands code falls flow)
    (terminated : Terminated (code ++ closed falls)) :
    finish name flow (site.holds code n k []) =
      .ok (site.holds (code ++ closed falls) n k []).finishFunction := by
  rw [finish_emits stands, unterminated?_eq_none terminated]

theorem open_entry : Open [.label ⟨0⟩ "entry"] ⟨0⟩ :=
  ⟨[], "entry", [], rfl, by simp, by simp [Code.labels]⟩

theorem fresh_entry : Fresh [.label ⟨0⟩ "entry"] 1 [] := by
  refine ⟨?_, by simp, List.nodup_nil⟩
  intro id member
  obtain rfl := List.mem_singleton.mp member
  exact Nat.zero_lt_one

/-- A finished function stands behind the others, and the builder has none in progress. -/
structure Adds (builder builder' : Builder Nat) (added : Ir.Function) : Prop where
  idle : builder'.draft = none
  name : builder'.name = builder.name
  globals : builder'.globals = builder.globals
  functions : builder'.functions = builder.functions ++ [added]

theorem adds_code {builder : Builder Nat} {name : String} {params : List Reg}
    (idle : builder.draft = none) :
    Adds builder ((⟨builder.finishFunction, name, params⟩ : Site).holds code n k []).finishFunction
      (codeFunction name params code) := by
  refine ⟨rfl, rfl, rfl, ?_⟩
  simp [Builder.finishFunction, Site.holds, idle, codeFunction]

theorem function_lowers {symbols : Symbols} {builder : Builder Nat} {function : Scoped.Function}
    (idle : builder.draft = none)
    (settled : Scoped.Stmt.AllInScope symbols false function.arity function.body) :
    ∃ builder' added, Lower.function builder function = .ok builder' ∧ LowersTo function added ∧
      Adds builder builder' added := by
  let site : Site := ⟨builder.finishFunction, function.name, paramRegs function.arity⟩
  have arity : (paramRegs function.arity).length = function.arity := by simp [paramRegs]
  have slots : (Code.slots (paramsCode function.arity (paramRegs function.arity))).length =
      function.arity := by
    simp [slots_paramsCode, arity, numbered]
  have opened := open_entry.append (@inner_paramsCode function.arity (paramRegs function.arity))
  have bodies : Extends site _ (function.arity + (paramRegs function.arity).length) 1 []
      (stmts none (.falls ⟨0⟩) function.body) Stands _ :=
    stmts_emits function.body opened.stands (fresh_entry.bare _ labels_paramsCode)
      (by simpa [Code.slots, slots] using settled)
  obtain ⟨more, falls, flow, n, k, emitted, stands, body⟩ := bodies
  have chain : Emits (do
      params ⟨0⟩ (paramRegs function.arity)
      stmts none (.falls ⟨0⟩) function.body)
      (site.holds [.label ⟨0⟩ "entry"] function.arity 1 []) flow _ :=
    (params_emits open_entry).bind emitted
  have lowers := body _ (List.prefix_refl _)
  rw [arity] at lowers
  simp only [List.cons_append, List.nil_append] at chain stands lowers
  have shape := FunctionCode.mk rfl lowers
  have terminated := terminated_of_closes shape.closes
  have finished := congrArg
    (fun result : Flow × Builder Nat => finish function.name result.1 result.2) chain
  rw [finish_eq_ok stands (by simpa using terminated)] at finished
  exact ⟨_, _, finished, ⟨_, shape, terminated, rfl⟩, by simpa using adds_code idle⟩

theorem entryFunction_lowers {builder : Builder Nat} {program : Scoped.Program}
    (idle : builder.draft = none)
    (globalsSettled : ∀ global ∈ program.globals, global.2.InScope program.symbols 0)
    (settled : Scoped.Stmt.AllInScope program.symbols false 0 program.main) :
    ∃ builder' added, entryFunction builder program = .ok builder' ∧ MainLowersTo program added ∧
      Adds builder builder' added := by
  let site : Site := ⟨builder.finishFunction, entryName, []⟩
  obtain ⟨first, m, firstEmitted, opened, slots, labels, globals⟩ :=
    @initials_emits site [.label ⟨0⟩ "entry"] 0 1 ⟨0⟩ [] _ _ open_entry rfl globalsSettled
  have bodies : Extends site _ m 1 [] (stmts none (.falls ⟨0⟩) program.main) Stands _ :=
    stmts_emits program.main opened.stands (fresh_entry.bare _ labels)
      (by simpa [Code.slots, slots] using settled)
  obtain ⟨more, falls, flow, n, k, emitted, stands, body⟩ := bodies
  have chain : Emits (do
      initials ⟨0⟩ program.globals
      stmts none (.falls ⟨0⟩) program.main) (site.holds [.label ⟨0⟩ "entry"] 0 1 []) flow _ :=
    firstEmitted.bind emitted
  have lowers := body _ (List.prefix_refl _)
  simp only [Code.slots_append, slots, Code.slots, List.append_nil, List.nil_append] at lowers
  simp only [List.cons_append, List.nil_append] at chain stands
  have shape := MainCode.mk rfl (globals _) lowers
  have terminated := terminated_of_closes shape.closes
  have finished := congrArg
    (fun result : Flow × Builder Nat => finish entryName result.1 result.2) chain
  rw [finish_eq_ok stands (by simpa using terminated)] at finished
  exact ⟨_, _, finished, ⟨_, shape, terminated, rfl⟩, by simpa using adds_code idle⟩

theorem functions_lower {symbols : Symbols} {functions : List Scoped.Function} {builder : Builder Nat}
    (idle : builder.draft = none)
    (settled : ∀ function ∈ functions,
      Scoped.Stmt.AllInScope symbols false function.arity function.body) :
    ∃ builder' added, functions.foldlM Lower.function builder = .ok builder' ∧
      List.Forall₂ LowersTo functions added ∧ builder'.draft = none ∧
      builder'.name = builder.name ∧ builder'.globals = builder.globals ∧
      builder'.functions = builder.functions ++ added := by
  induction functions generalizing builder with
  | nil => exact ⟨builder, [], rfl, .nil, idle, rfl, rfl, by simp⟩
  | cons function functions ih =>
    obtain ⟨first, others⟩ := List.forall_mem_cons.mp settled
    obtain ⟨middle, added, one, lowers, adds⟩ := function_lowers idle first
    obtain ⟨last, more, rest, lowersMore, idle, name, globals, functions⟩ := ih adds.idle others
    exact ⟨last, added :: more, bind_eq_ok.mpr ⟨middle, one, rest⟩, .cons lowers lowersMore, idle,
      name.trans adds.name, globals.trans adds.globals,
      by rw [functions, adds.functions, List.append_assoc]; rfl⟩

theorem symbols_globals (program : Scoped.Program) :
    (symbols program).globals =
      formatGlobal :: program.globals.map (fun global => zeroGlobal global.1) ∧
    (symbols program).functions = [printer] ∧ (symbols program).draft = none := by
  have added (globals : List (String × Scoped.Expr)) : ∀ builder : Builder Nat,
      globals.foldl (fun builder global => builder.addGlobal ⟨global.1, .i32, .int 0, false⟩)
        builder =
        { builder with
          globals := builder.globals ++ globals.map fun global => zeroGlobal global.1 } := by
    induction globals with
    | nil => simp
    | cons global globals ih =>
      intro builder
      rw [List.foldl_cons, ih]
      simp [Builder.addGlobal, zeroGlobal]
  simp only [symbols, added]
  exact ⟨rfl, rfl, rfl⟩

/-- A well-scoped program has a module, in the form that the lowering rules give. -/
theorem program_lowers {program : Scoped.Program} (settled : program.WellScoped) :
    ∃ module, Lower.program program = .ok module ∧ ModuleOf program module := by
  obtain ⟨globals, functions, idle⟩ := symbols_globals program
  obtain ⟨middle, main, mainLowered, mainLowers, adds⟩ :=
    entryFunction_lowers idle settled.globals settled.main
  obtain ⟨last, others, othersLowered, othersLower, idle, _, lastGlobals, lastFunctions⟩ :=
    functions_lower adds.idle settled.functions
  refine ⟨last.finish, ?_, ?_, main, others, ?_, mainLowers, othersLower⟩
  · exact bind_eq_ok.mpr ⟨middle, mainLowered, bind_eq_ok.mpr ⟨last, othersLowered, rfl⟩⟩
  · rw [← globals, ← adds.globals, ← lastGlobals]
    rfl
  · have same : last.finish.functions = last.functions := by
      simp [Builder.finish, Builder.finishFunction, idle]
    rw [same, lastFunctions, adds.functions, functions]
    rfl

/-- A resolved program is lowered without a fault. -/
theorem lower_of_resolve {program : Program} {settled : Scoped.Program}
    (resolved : resolve program = .ok settled) :
    ∃ module, lower program = .ok module ∧ ModuleOf settled module := by
  obtain ⟨main, settles⟩ := resolve_settles resolved
  obtain ⟨module, lowered, shape⟩ := program_lowers settles.wellScoped
  exact ⟨module, bind_eq_ok.mpr ⟨settled, resolved, lowered⟩, shape⟩

/-- An accepted program has a settled tree, and its module is that of the tree. -/
theorem lower_eq_ok {program : Program} {module : Ir.Module} (lowered : lower program = .ok module) :
    ∃ main settled, Settles program main settled ∧ resolve program = .ok settled ∧
      settled.WellScoped ∧ ModuleOf settled module := by
  obtain ⟨settled, resolved, _⟩ := bind_eq_ok.mp lowered
  obtain ⟨main, settles⟩ := resolve_settles resolved
  obtain ⟨module', lowered', shape⟩ := lower_of_resolve resolved
  obtain rfl : module' = module := Except.ok.inj (lowered'.symm.trans lowered)
  exact ⟨main, settled, settles, resolved, settles.wellScoped, shape⟩

end OliCompiler.Lower
