import OliCompiler.Proofs.Correctness
import OliCompiler.Proofs.Lowering.Layout
import OliCompiler.Proofs.Lowering.Lookup
import OliCompiler.Proofs.Verifier.Statements

/-!
Every function of the module of an accepted program is as the verifier asks, and has a stack slot for
each parameter and each declaration of its source.
-/

namespace OliCompiler.Lower

open Ir

variable {program : Scoped.Program} {module : Ir.Module} {symbols : Symbols} {around : Surroundings}
  {context : Context} {code rest : Code} {slots : List Reg} {n k arity : Nat}

theorem declares_of_module (settled : program.WellScoped) (shape : ModuleOf program module) :
    Declares module program.symbols where
  globals := by
    intro name member
    obtain ⟨global, listed, rfl⟩ := List.mem_map.mp member
    refine ⟨zeroGlobal global.1, ?_, rfl, rfl, rfl⟩
    rw [shape.globals]
    exact List.mem_cons_of_mem _ (List.mem_map.mpr ⟨global, listed, rfl⟩)
  functions := by
    intro callee arity declared
    obtain ⟨function, member, same⟩ := List.mem_map.mp declared
    obtain ⟨rfl, rfl⟩ := Prod.mk.inj same
    obtain ⟨lowered, found, code, _, _, rfl⟩ := function?_function settled shape member
    exact ⟨_, found, rfl, by simp [codeFunction, Draft.toFunction]⟩
  printer := ⟨printer, function?_printer shape, rfl⟩

theorem paramsCode_verified {regs : List Reg} (known : ∀ reg ∈ regs, (reg, .word) ∈ context)
    (slotted : Code.slots (paramsCode n regs) ⊆ around.slots)
    (verified : ∀ context, Code.Verified around context rest) :
    Code.Verified around context (paramsCode n regs ++ rest) := by
  induction regs generalizing n with
  | nil => exact verified context
  | cons reg regs ih =>
    obtain ⟨first, known⟩ := List.forall_mem_cons.mp known
    rw [paramsCode, Code.slots, Code.slots, List.cons_subset] at slotted
    exact ⟨⟨⟨.inr ⟨slotted.1, rfl⟩, .inl first⟩, rfl⟩, ih known slotted.2⟩

theorem InitialsCode.verified (declares : Declares around.module symbols) {m : Nat}
    {globals : List (String × Scoped.Expr)} (initials : InitialsCode around.slots m globals code n)
    (settled : ∀ global ∈ globals, global.1 ∈ symbols.globals ∧ global.2.InScope symbols 0) :
    ∀ context, Code.Verified around context code := by
  induction initials with
  | nil => exact fun _ => trivial
  | cons word _ ih =>
    obtain ⟨⟨declared, first⟩, settled⟩ := List.forall_mem_cons.mp settled
    intro context
    exact verified_store (word.verified declares (Nat.zero_le _) first context)
      (fun _ => ⟨rfl, declares.globals _ declared⟩) (ih settled)

theorem closed_verified {falls : Bool} : Code.Verified around context (closed falls) := by
  cases falls with
  | true => exact ⟨⟨rfl, by simp [Terminator.successors]⟩, trivial⟩
  | false => trivial

theorem paramRegs_eq : paramRegs arity = numbered 0 arity := by
  rw [paramRegs, numbered, List.range_eq_range', Nat.sub_zero]

theorem ids_nodup {name : String} {params : List Reg} (layout : Layout arity code) :
    ((codeFunction name params (.label ⟨0⟩ "entry" :: code)).blocks.map Block.id).Nodup := by
  obtain ⟨k, labels⟩ := layout.labels
  rw [codeFunction_blocks, List.map_cons, Code.map_id_blocks]
  exact List.nodup_cons.mpr ⟨labels.not_mem Nat.zero_lt_one, labels.distinct⟩

theorem assigned_nodup {name : String} (layout : Layout arity code) :
    (codeFunction name (paramRegs arity) (.label ⟨0⟩ "entry" :: code)).assigned.Nodup := by
  obtain ⟨n, defines⟩ := layout.defines
  have all : (paramRegs arity ++ Code.defined code).Nodup := by
    rw [paramRegs_eq, defines.all, numbered_append (Nat.zero_le _) defines.le]
    exact numbered_nodup 0 n
  have apart : (paramRegs arity ++ (Code.slots code ++ Code.results code)).Nodup :=
    (Code.defined_perm.append_left _).nodup_iff.mp all
  have slots : (slotInstrs (Code.slots code)).filterMap Instr.result = Code.slots code := by
    simp [slotInstrs, List.filterMap_map]
  have assigned : (codeFunction name (paramRegs arity) (.label ⟨0⟩ "entry" :: code)).assigned =
      paramRegs arity ++ (Code.slots code ++ ((Code.body code).filterMap Instr.result ++
        (Code.blocks code).flatMap fun block => block.instrs.filterMap Instr.result)) := by
    rw [Function.assigned, codeFunction_blocks, List.flatMap_cons, entryBlock, List.filterMap_append,
      slots, List.append_assoc]
    simp [codeFunction, Draft.toFunction, Function.comp_def]
  rw [assigned]
  exact apart.sublist ((Code.results_sublist.append_left _).append_left _)

/-- The function of some code is well formed if its code is as the verifier asks. -/
theorem wellFormed_of_verified {name : String} (layout : Layout arity code)
    (terminated : Terminated (.label ⟨0⟩ "entry" :: code))
    (verified : Code.Verified ⟨module, Code.slots code, Code.labels code⟩
      ((paramRegs arity).map (·, .word)) code) :
    (codeFunction name (paramRegs arity) (.label ⟨0⟩ "entry" :: code)).WellFormed module
      (Code.slots code).length where
  ids := ids_nodup layout
  names := by
    apply names_nodup (ids_nodup layout)
    rw [codeFunction_blocks]
    have entry : Undigited "entry" := by decide
    exact List.forall_mem_cons.mpr ⟨⟨"entry", rfl, entry⟩,
      fun block member => (verified.blocks block member).1⟩
  once := assigned_nodup layout
  words := ⟨rfl, by simp [codeFunction, Draft.toFunction]⟩
  blocks := by
    obtain ⟨entry, others⟩ := List.forall_mem_cons.mp terminated
    refine ⟨entryBlock code, Code.blocks code, Code.slots code, Code.body code, codeFunction_blocks,
      rfl, rfl, ?_⟩
    rw [Code.map_id_blocks]
    have context : Function.context (codeFunction name (paramRegs arity)
        (.label ⟨0⟩ "entry" :: code)) = (paramRegs arity).map (·, .word) := by
      simp [Function.context, codeFunction, Draft.toFunction]
    rw [context]
    exact ⟨verified.body entry, fun block member => (verified.blocks block member).2 (others block member)⟩

/-- A lowered function is well formed and has a stack slot for each of its locals. -/
theorem LowersTo.wellFormed {function : Scoped.Function} {lowered : Ir.Function}
    (declares : Declares module symbols)
    (settled : Scoped.Stmt.AllInScope symbols false function.arity function.body)
    (lowers : LowersTo function lowered) :
    lowered.WellFormed module (function.arity + Scoped.Stmt.declaresAll function.body) := by
  obtain ⟨_, @⟨code, falls, slots, n, k, all, body⟩, terminated, rfl⟩ := lowers
  let rest := paramsCode function.arity (paramRegs function.arity) ++ (code ++ closed falls)
  let around : Surroundings := ⟨module, Code.slots rest, Code.labels rest⟩
  obtain rfl : slots = around.slots := by simp [all, around, rest]
  have count : around.slots.length = function.arity + Scoped.Stmt.declaresAll function.body := by
    rw [all, Code.slots_append, slots_paramsCode, List.length_append, body.slots_length]
    simp [numbered]
  have declared : Declares around.module symbols := declares
  have inside : Code.labels code ⊆ around.targets := by simp [around, rest]
  have noLoop : TargetsInside around none := fun _ member => by cases member
  have verified : Code.Verified around ((paramRegs function.arity).map (·, .word)) rest := by
    refine paramsCode_verified ?_ ?_ fun context => ?_
    · exact fun reg member => List.mem_map.mpr ⟨reg, member, rfl⟩
    · simp [around, rest]
    · exact (body.verified declared settled (Nat.le_of_eq count.symm) noLoop inside context).append
        fun _ => closed_verified
  exact count ▸ wellFormed_of_verified body.function_layout terminated verified

theorem MainLowersTo.wellFormed {lowered : Ir.Function} (settled : program.WellScoped)
    (declares : Declares module program.symbols) (lowers : MainLowersTo program lowered) :
    lowered.WellFormed module (Scoped.Stmt.declaresAll program.main) := by
  obtain ⟨_, @⟨first, code, falls, slots, m, n, k, all, globals, body⟩, terminated, rfl⟩ := lowers
  let rest := first ++ (code ++ closed falls)
  let around : Surroundings := ⟨module, Code.slots rest, Code.labels rest⟩
  obtain rfl : slots = around.slots := by simp [all, around, rest, globals.slots_eq]
  have count : around.slots.length = Scoped.Stmt.declaresAll program.main := by
    rw [all, body.slots_length]
  have declared : Declares around.module program.symbols := declares
  have inside : Code.labels code ⊆ around.targets := by simp [around, rest]
  have noLoop : TargetsInside around none := fun _ member => by cases member
  have known : ∀ global ∈ program.globals,
      global.1 ∈ program.symbols.globals ∧ global.2.InScope program.symbols 0 :=
    fun global member => ⟨List.mem_map.mpr ⟨global, member, rfl⟩, settled.globals global member⟩
  have enough : 0 + Scoped.Stmt.declaresAll program.main ≤ around.slots.length :=
    Nat.le_of_eq (by rw [count, Nat.zero_add])
  have verified : Code.Verified around ((paramRegs 0).map (·, .word)) rest := by
    refine (globals.verified declared known _).append fun context => ?_
    exact (body.verified declared settled.main enough noLoop inside context).append
      fun _ => closed_verified
  exact count ▸ wellFormed_of_verified (body.main_layout globals) terminated verified

end OliCompiler.Lower

namespace OliCompiler

open Lower

/-- Every function of the module of an accepted program that has blocks is well formed. Its stack slots
are one for each parameter and each local that its source declares. -/
theorem lower_wellFormed {program : Program} {module : Ir.Module} (lowered : lower program = .ok module)
    (bare : ∀ main ∈ program.main, main.params = []) :
    ∀ function ∈ module.functions, function.external = false → ∃ source,
      ((program.main = some source ∧ function.name = entryName) ∨
        (source ∈ program.functions ∧ function.name = source.name.name)) ∧
      function.WellFormed module (source.arity + (Stmt.declaredAll source.body).length) := by
  obtain ⟨main, settled, settles, _, wellScoped, shape⟩ := lower_eq_ok lowered
  obtain ⟨entry, others, functions, lowersMain, lowers⟩ := shape.functions
  have declares := declares_of_module wellScoped shape
  intro function member inside
  rw [functions, List.mem_cons, List.mem_cons] at member
  rcases member with rfl | rfl | member
  · cases inside
  · obtain ⟨after, resolved⟩ := settles.body
    have none : main.arity = 0 := congrArg List.length (bare main settles.main)
    have wellFormed := lowersMain.wellFormed wellScoped declares
    rw [resolveStmts_declares resolved] at wellFormed
    refine ⟨main, .inl ⟨settles.main, main_name lowersMain⟩, ?_⟩
    rwa [none, Nat.zero_add]
  · obtain ⟨resolvedTo, present, lowersTo⟩ := mem_of_forall₂ lowers member
    obtain ⟨source, listed, resolved⟩ := mem_of_forall₂ settles.functions present
    obtain ⟨after, body, _, name, arity⟩ := resolveFunction_body resolved
    have wellFormed := LowersTo.wellFormed declares (wellScoped.functions resolvedTo present) lowersTo
    rw [resolveStmts_declares body, arity] at wellFormed
    obtain ⟨_, _, _, rfl⟩ := lowersTo
    exact ⟨source, .inr ⟨listed, name⟩, wellFormed⟩

theorem lower_wellFormed_countdown : ∃ module, lower countdown = .ok module ∧
    ∀ function ∈ module.functions, function.external = false → ∃ source,
      ((countdown.main = some source ∧ function.name = entryName) ∨
        (source ∈ countdown.functions ∧ function.name = source.name.name)) ∧
      function.WellFormed module (source.arity + (Stmt.declaredAll source.body).length) := by
  obtain ⟨module, lowered⟩ := countdown_lowers
  refine ⟨module, lowered, lower_wellFormed lowered ?_⟩
  rintro main ⟨⟩
  rfl

end OliCompiler
