import OliCompiler.Proofs.Scanning.Rules
import OliCompiler.Proofs.Symbols
import OliCompiler.Proofs.Texts.Legible
import OliCompiler.Proofs.Verifier.Module

/-!
The module of an accepted program can be read if the names of the program are letters, digits and
underscores: lowering takes its hints from a fixed list, and its operands are as the verifier asks.
-/

namespace OliCompiler

open Ir Text

namespace Ir.Code

/-- The hints of the labels. -/
def hints : Code → List String
  | [] => []
  | .label _ hint :: code => hint :: hints code
  | .slot _ :: code | .instr _ :: code | .exit _ :: code => hints code

variable {code code' inner : Code}

@[simp]
theorem hints_append : hints (code ++ code') = hints code ++ hints code' := by
  induction code with
  | nil => rfl
  | cons piece code ih => cases piece <;> simp [hints, ih]

theorem hints_inner (inside : ∀ piece ∈ inner, Inner piece) : hints inner = [] := by
  induction inside using inner_induction with
  | nil => rfl
  | slot _ ih | instr _ ih => exact ih

@[simp]
theorem hints_ofInstrs {instrs : List Instr} : hints (ofInstrs instrs) = [] := hints_inner inner_ofInstrs

theorem hint_of_mem_blocks : ∀ block ∈ blocks code, ∃ hint ∈ hints code, block.hint = some hint := by
  induction code with
  | nil => simp [blocks]
  | cons piece code ih =>
    cases piece with
    | label id hint =>
      refine List.forall_mem_cons.mpr ⟨⟨hint, List.mem_cons_self, rfl⟩, fun block member => ?_⟩
      obtain ⟨other, listed, same⟩ := ih block member
      exact ⟨other, List.mem_cons_of_mem _ listed, same⟩
    | slot | instr | exit => exact ih

end Ir.Code

namespace Lower

/-- The hints that lowering gives its blocks. -/
def hints : List String :=
  ["entry", "if.then", "if.else", "if.end", "while.cond", "while.body", "while.end", "for.cond",
    "for.body", "for.iter", "for.end", "dead"]

theorem hints_legible : ∀ hint ∈ hints, Whole hint ∧ Undigited hint := by decide

variable {slots : List Reg}

@[simp]
theorem hints_joined {falls : Bool} {target : BlockId} : Code.hints (joined falls target) = [] := by
  cases falls <;> rfl

@[simp]
theorem hints_closed {falls : Bool} : Code.hints (closed falls) = [] := by
  cases falls <;> rfl

theorem DeclareCode.hints {n n' slot : Nat} {value : Scoped.Expr} {code : Code}
    (declared : DeclareCode slots n slot value code n') : Code.hints code = [] :=
  Code.hints_inner declared.inner

theorem AssignCode.hints {n n' : Nat} {var : Scoped.Var} {value : Scoped.Expr} {code : Code}
    (assigned : AssignCode slots n var value code n') : Code.hints code = [] :=
  Code.hints_inner assigned.inner

mutual

theorem StmtCode.hints : ∀ {targets : Option Targets} {n n' k k' : Nat} {stmt : Scoped.Stmt}
    {code : Code} {falls : Bool},
    StmtCode slots targets n k stmt code falls n' k' → Code.hints code ⊆ Lower.hints
  | _, _, _, _, _, _, _, _, .declare declared => by simp [declared.hints]
  | _, _, _, _, _, _, _, _, .assign assigned => by simp [assigned.hints]
  | _, _, _, _, _, _, _, _, .return word => by simp [Code.hints]
  | _, _, _, _, _, _, _, _, .expr computed => by simp
  | _, _, _, _, _, _, _, reached, .if both => by
    have inner := both.hints
    cases reached <;> simpa [Code.hints, inner] using (by decide)
  | _, _, _, _, _, _, _, _, .while test repeated => by
    have inner := repeated.hints
    simpa [Code.hints, inner] using (by decide)
  | _, _, _, _, _, _, _, _, .for declared test repeated updated => by
    have inner := repeated.hints
    simpa [Code.hints, declared.hints, updated.hints, inner] using (by decide)
  | _, _, _, _, _, _, _, _, .break => by simp [Code.hints]
  | _, _, _, _, _, _, _, _, .continue => by simp [Code.hints]

theorem ArmsCode.hints : ∀ {targets : Option Targets} {merge : BlockId} {n n' k k' : Nat}
    {condition : Scoped.Expr} {body : List Scoped.Stmt} {tail : Scoped.Tail} {code : Code}
    {reached : Bool},
    ArmsCode slots targets merge n k condition body tail code reached n' k' →
      Code.hints code ⊆ Lower.hints
  | _, _, _, _, _, _, _, _, _, _, _, .mk test first second => by
    simpa [Code.hints, first.hints, second.hints] using (by decide)

theorem TailCode.hints : ∀ {targets : Option Targets} {merge : BlockId} {n n' k k' : Nat}
    {tail : Scoped.Tail} {code : Code} {reached : Bool},
    TailCode slots targets merge n k tail code reached n' k' → Code.hints code ⊆ Lower.hints
  | _, _, _, _, _, _, _, _, _, .none => by simp [Code.hints]
  | _, _, _, _, _, _, _, _, _, .elseIf both => both.hints
  | _, _, _, _, _, _, _, _, _, .else inner => by simpa using inner.hints

theorem StmtsCode.hints : ∀ {targets : Option Targets} {n n' k k' : Nat}
    {stmts : List Scoped.Stmt} {code : Code} {falls falls' : Bool},
    StmtsCode slots targets n k falls stmts code falls' n' k' → Code.hints code ⊆ Lower.hints
  | _, _, _, _, _, _, _, _, _, .nil => by simp [Code.hints]
  | _, _, _, _, _, _, _, _, _, .cons first rest => by simp [first.hints, rest.hints]
  | _, _, _, _, _, _, _, _, _, .dead first rest => by
    simpa [Code.hints, first.hints, rest.hints] using (by decide)

end

theorem labelled_of_mem_codeFunction {name : String} {params : List Reg} {code : Code}
    (listed : Code.hints code ⊆ Lower.hints) :
    ∀ block ∈ (codeFunction name params (.label ⟨0⟩ "entry" :: code)).blocks,
      block.Labelled := by
  rw [codeFunction_blocks]
  refine List.forall_mem_cons.mpr ⟨⟨"entry", rfl, by decide, by decide⟩, fun block member => ?_⟩
  obtain ⟨hint, placed, same⟩ := Code.hint_of_mem_blocks block member
  exact ⟨hint, same, hints_legible hint (listed placed)⟩

theorem hints_paramsCode {n : Nat} {regs : List Reg} : Code.hints (paramsCode n regs) = [] :=
  Code.hints_inner inner_paramsCode

theorem InitialsCode.hints {m n : Nat} {globals : List (String × Scoped.Expr)} {code : Code}
    (initials : InitialsCode slots m globals code n) : Code.hints code = [] :=
  Code.hints_inner initials.inner

end Lower

namespace Ir

variable {around : Surroundings} {context : Context}

/-- Whether what code may refer to by name has a name that is a field. -/
structure Surroundings.Named (around : Surroundings) : Prop where
  globals : ∀ global ∈ around.module.globals, Whole global.name
  functions : ∀ function ∈ around.module.functions, Whole function.name

theorem Operand.HasKind.legible {operand : Operand} {kind : Kind} (named : around.Named)
    (has : operand.HasKind around context kind) : operand.Legible := by
  cases operand with
  | reg | int => trivial
  | global name =>
    obtain ⟨_, global, member, rfl, _⟩ := has
    exact (named.globals global member).2

theorem CallAllowed.legible {callee : String} {args : List Operand} (named : around.Named)
    (allowed : CallAllowed around context callee args) : (Op.call callee args).Legible := by
  obtain ⟨target, found, allowed⟩ := allowed
  obtain rfl : target.name = callee := by simpa using List.find?_some found
  refine ⟨named.functions target (List.mem_of_find?_eq_some found), ?_⟩
  split at allowed
  · obtain ⟨_, value, rfl, has⟩ := allowed
    have format : (Operand.global formatName).Legible := by
      show Solid formatName
      decide
    exact List.forall_mem_cons.mpr ⟨format, List.forall_mem_singleton.mpr (has.legible named)⟩
  · exact fun arg member => (allowed.2 arg member).legible named

theorem Op.Allowed.legible {op : Op} (named : around.Named) (allowed : op.Allowed around context) :
    op.Legible := by
  cases op with
  | arith | compare | store => exact ⟨allowed.1.legible named, allowed.2.legible named⟩
  | widen => exact ⟨allowed.1.legible named, allowed.2⟩
  | slot => cases allowed
  | load => exact Operand.HasKind.legible named allowed
  | call => exact CallAllowed.legible named allowed

theorem Terminator.Allowed.legible {terminator : Terminator} (named : around.Named)
    (allowed : terminator.Allowed around context) : terminator.Legible := by
  cases terminator with
  | ret | branch => exact Operand.HasKind.legible named allowed.1
  | jump | unreachable => trivial

theorem Verified.legible {instrs : List Instr} {ending : Option Terminator} (named : around.Named)
    (verified : Verified around context instrs ending) :
    (∀ instr ∈ instrs, instr.op.Legible) ∧ ∃ terminator, ending = some terminator ∧
      terminator.Legible := by
  induction instrs generalizing context with
  | nil =>
    obtain ⟨terminator, ended, allowed⟩ := verified
    exact ⟨by simp, terminator, ended, allowed.legible named⟩
  | cons instr instrs ih =>
    obtain ⟨others, ended⟩ := ih verified.2
    exact ⟨List.forall_mem_cons.mpr ⟨verified.1.1.legible named, others⟩, ended⟩

/-- A well-formed function can be read if its labels can, and the names that it refers to. -/
theorem Function.WellFormed.legible {module : Module} {slots : Nat} {function : Function}
    (wellFormed : function.WellFormed module slots)
    (globals : ∀ global ∈ module.globals, Whole global.name)
    (functions : ∀ other ∈ module.functions, Whole other.name) (name : Whole function.name)
    (external : function.external = false) (variadic : function.variadic = false)
    (labelled : ∀ block ∈ function.blocks, block.Labelled) : function.Legible where
  name := name
  params := wellFormed.words.2
  result := wellFormed.words.1
  external := external
  variadic := variadic
  entered := by
    obtain ⟨entry, others, _, _, blocks, _⟩ := wellFormed.blocks
    simp [blocks]
  blocks := by
    obtain ⟨entry, others, regs, instrs, blocks, _, slotted, first, rest⟩ := wellFormed.blocks
    have named : Surroundings.Named ⟨module, regs, others.map Block.id⟩ := ⟨globals, functions⟩
    rw [blocks] at labelled ⊢
    obtain ⟨label, labels⟩ := List.forall_mem_cons.mp labelled
    refine List.forall_mem_cons.mpr ⟨⟨label, ?_, (first.legible named).2⟩, fun block member => ?_⟩
    · rw [slotted, List.forall_mem_append, List.forall_mem_map]
      exact ⟨fun _ _ => rfl, (first.legible named).1⟩
    · have known := (rest block member).legible named
      exact ⟨labels block member, known.1, known.2⟩

end Ir

namespace Lower

variable {program : Scoped.Program} {module : Ir.Module}

theorem program_name (settled : program.WellScoped) (made : Lower.program program = .ok module) :
    module.name = entryName := by
  have added (globals : List (String × Scoped.Expr)) : ∀ builder : Builder Nat,
      (globals.foldl (fun builder global => builder.addGlobal ⟨global.1, .i32, .int 0, false⟩)
        builder).name = builder.name := by
    induction globals with
    | nil => exact fun _ => rfl
    | cons global globals ih => exact fun builder => ih _
  obtain ⟨middle, entry, rest⟩ := bind_eq_ok.mp made
  obtain ⟨last, functions, finished⟩ := bind_eq_ok.mp rest
  cases pure_eq_ok.mp finished
  have idle := (symbols_globals program).2.2
  obtain ⟨middle', _, mainLowered, _, adds⟩ :=
    entryFunction_lowers idle settled.globals settled.main
  obtain rfl : middle' = middle := Except.ok.inj (mainLowered.symm.trans entry)
  obtain ⟨last', _, othersLowered, _, _, name, _⟩ := functions_lower adds.idle settled.functions
  obtain rfl : last' = last := Except.ok.inj (othersLowered.symm.trans functions)
  exact name.trans (adds.name.trans (added program.globals _))

theorem LowersTo.labelled {function : Scoped.Function} {lowered : Ir.Function}
    (lowers : LowersTo function lowered) : ∀ block ∈ lowered.blocks, block.Labelled := by
  obtain ⟨_, @⟨code, falls, slots, n, k, all, body⟩, _, rfl⟩ := lowers
  exact labelled_of_mem_codeFunction (by simp [hints_paramsCode, body.hints])

theorem MainLowersTo.labelled {lowered : Ir.Function} (lowers : MainLowersTo program lowered) :
    ∀ block ∈ lowered.blocks, block.Labelled := by
  obtain ⟨_, @⟨first, code, falls, slots, m, n, k, all, globals, body⟩, _, rfl⟩ := lowers
  exact labelled_of_mem_codeFunction (by simp [globals.hints, body.hints])

end Lower

theorem whole_of_isName {name : String} (isName : Scanning.IsName name.toList) : Whole name := by
  obtain ⟨first, others, chars, letter, parts⟩ := isName
  constructor
  · rintro rfl
    cases chars
  · let part (c : Char) : Bool := Scanning.IsLetter c ∨ Scanning.IsDigit c
    have all : ∀ c ∈ name.toList, part c = true := by
      rw [chars]
      exact List.forall_mem_cons.mpr ⟨decide_eq_true (.inl letter), fun c member =>
        decide_eq_true (parts c member)⟩
    exact solid_of_forall all (by decide)

variable {program : Program} {module : Ir.Module}

section

variable (lowered : lower program = .ok module)
  (names : ∀ name ∈ program.symbolNames, Scanning.IsName name.toList)

include lowered names

theorem names_whole_of_lower : (∀ function ∈ module.functions, Whole function.name) ∧
    ∀ global ∈ module.globals, Whole global.name := by
  obtain ⟨functionNames, globalNames⟩ := lower_symbols lowered
  obtain ⟨ofFunctions, ofGlobals⟩ := List.forall_mem_append.mp names
  constructor
  · rw [← List.forall_mem_map, functionNames, List.forall_mem_cons, List.forall_mem_cons]
    exact ⟨by decide, by decide, fun name member => whole_of_isName (ofFunctions name member)⟩
  · rw [← List.forall_mem_map, globalNames, List.forall_mem_cons]
    exact ⟨by decide, fun name member => whole_of_isName (ofGlobals name member)⟩

/-- The module of an accepted program can be read if its names are letters, digits and underscores. -/
theorem legible_of_lower : ∃ globals functions, module.Legible globals functions := by
  obtain ⟨main, settled, settles, resolved, wellScoped, shape⟩ := Lower.lower_eq_ok lowered
  obtain ⟨entry, others, functions, lowersMain, lowers⟩ := shape.functions
  obtain ⟨functionNames, globalNames⟩ := names_whole_of_lower lowered names
  have made : Lower.program settled = .ok module := by rwa [lower, resolved] at lowered
  have declares := Lower.declares_of_module wellScoped shape
  have inside : ∀ function ∈ entry :: others, function ∈ module.functions := by
    rw [functions]
    exact fun function => List.mem_cons_of_mem _
  refine ⟨settled.globals.map Prod.fst, entry :: others, ?_, ?_, ?_, functions, ?_, ?_⟩
  · rw [Lower.program_name wellScoped made]
    decide
  · rw [shape.globals, List.map_map]
    rfl
  · rw [shape.globals, List.forall_mem_cons, List.forall_mem_map] at globalNames
    exact List.forall_mem_map.mpr globalNames.2
  · intro function member
    have named := functionNames function (inside function member)
    rcases List.mem_cons.mp member with rfl | member
    · have wellFormed := lowersMain.wellFormed wellScoped declares
      have labelled := lowersMain.labelled
      obtain ⟨_, _, _, rfl⟩ := lowersMain
      exact wellFormed.legible globalNames functionNames named rfl rfl labelled
    · obtain ⟨source, present, lowersTo⟩ := mem_of_forall₂ lowers member
      have wellFormed := lowersTo.wellFormed declares (wellScoped.functions source present)
      have labelled := lowersTo.labelled
      obtain ⟨_, _, _, rfl⟩ := lowersTo
      exact wellFormed.legible globalNames functionNames named rfl rfl labelled
  · have apart := Lower.function_names_nodup wellScoped shape
    rw [functions, List.map_cons, List.nodup_cons] at apart
    intro function member same
    have listed : function.name ∈ (entry :: others).map Ir.Function.name := List.mem_map_of_mem member
    rw [same] at listed
    exact apart.1 listed

end

end OliCompiler
