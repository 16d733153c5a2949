import OliCompiler.Proofs.Lowering.Module

/-!
How a lowered function is laid out. Its entry block opens with the stack slots, and every other block
stands where its label is. Registers are numbered behind the parameters, blocks behind the entry block.
-/

namespace OliCompiler.Lower

open Ir

/-- The instructions that make stack slots. -/
def slotInstrs (slots : List Reg) : List Instr := slots.map fun reg => ⟨some reg, .slot .i32⟩

/-- The entry block of a function with some code behind its entry label. -/
def entryBlock (code : Code) : Block :=
  ⟨⟨0⟩, some "entry", slotInstrs (Code.slots code) ++ Code.body code, Code.ending code⟩

theorem codeFunction_blocks {name : String} {params : List Reg} {code : Code} :
    (codeFunction name params (.label ⟨0⟩ "entry" :: code)).blocks =
      entryBlock code :: Code.blocks code := by
  simp [codeFunction, Draft.toFunction, Draft.placedBlocks, Draft.slotInstrs, Code.blocks, entryBlock,
    Code.slots, slotInstrs, Function.comp_def]

/-- Which numbers the code behind an entry label takes. -/
structure Layout (arity : Nat) (code : Code) : Prop where
  defines : ∃ n, Defines arity (Code.defined code) n
  labels : ∃ k, Labels 1 (Code.labels code) k

namespace Layout

variable {arity : Nat} {code : Code}

theorem distinct (layout : Layout arity code) : (Code.defined code).Nodup := by
  obtain ⟨n, defines⟩ := layout.defines
  rw [defines.all]
  exact numbered_nodup arity n

/-- No stack slot has the register of a parameter. -/
theorem params_apart (layout : Layout arity code) {reg : Reg} (param : reg ∈ paramRegs arity) :
    reg ∉ Code.slots code := by
  obtain ⟨n, defines⟩ := layout.defines
  intro slot
  have listed := (Code.slots_sublist code).subset slot
  rw [defines.all, mem_numbered] at listed
  obtain ⟨index, inside, rfl⟩ := List.mem_map.mp param
  exact Nat.not_lt.mpr listed.1 (List.mem_range.mp inside)

theorem block?_eq (layout : Layout arity code) {name : String} {params : List Reg} {id : BlockId}
    {hint : String} {rest : Code} (inside : id ≠ ⟨0⟩)
    (placed : .label id hint :: rest <:+ .label ⟨0⟩ "entry" :: code) :
    (codeFunction name params (.label ⟨0⟩ "entry" :: code)).block? id =
      some ⟨id, some hint, Code.body rest, Code.ending rest⟩ := by
  obtain ⟨k, labels⟩ := layout.labels
  rw [Ir.Function.block?, codeFunction_blocks, List.find?_cons_of_neg]
  · rcases List.suffix_cons_iff.mp placed with same | placed
    · cases same
      exact absurd rfl inside
    · exact Code.find?_blocks labels.distinct placed
  · exact fun same => inside (of_decide_eq_true same).symm

end Layout

variable {slots : List Reg} {n k : Nat} {code : Code} {falls : Bool}

theorem defines_paramsCode {regs : List Reg} :
    Defines n (Code.defined (paramsCode n regs)) (n + regs.length) := by
  induction regs generalizing n with
  | nil => exact .nil
  | cons reg regs ih =>
    have defines := Defines.one.append (@ih (n + 1))
    simpa [paramsCode, Code.defined, Nat.add_assoc, Nat.add_comm 1] using defines

theorem InitialsCode.defines {m : Nat} {globals : List (String × Scoped.Expr)}
    (initials : InitialsCode slots m globals code n) : Defines m (Code.defined code) n := by
  induction initials with
  | nil => exact .nil
  | cons word _ ih => simpa [Code.defined] using word.defines.append ih

theorem InitialsCode.labels {m : Nat} {globals : List (String × Scoped.Expr)}
    (initials : InitialsCode slots m globals code n) : Code.labels code = [] :=
  Code.labels_inner initials.inner

theorem InitialsCode.slots_eq {m : Nat} {globals : List (String × Scoped.Expr)}
    (initials : InitialsCode slots m globals code n) : Code.slots code = [] := by
  induction initials with
  | nil => rfl
  | cons word _ ih => simpa [Code.slots] using ih

@[simp]
theorem defined_closed : Code.defined (closed falls) = [] := by
  cases falls <;> rfl

@[simp]
theorem labels_closed : Code.labels (closed falls) = [] := by
  cases falls <;> rfl

@[simp]
theorem slots_closed : Code.slots (closed falls) = [] := by
  cases falls <;> rfl

@[simp]
theorem length_paramRegs {arity : Nat} : (paramRegs arity).length = arity := by simp [paramRegs]

theorem StmtsCode.function_layout {arity : Nat} {stmts : List Scoped.Stmt}
    (body : StmtsCode slots none (arity + arity) 1 true stmts code falls n k) :
    Layout arity (paramsCode arity (paramRegs arity) ++ (code ++ closed falls)) := by
  have params := @defines_paramsCode arity (paramRegs arity)
  rw [length_paramRegs] at params
  exact ⟨⟨n, by simpa using params.append body.defines⟩, k, by simpa using body.labels⟩

theorem StmtsCode.main_layout {m : Nat} {globals : List (String × Scoped.Expr)} {first : Code}
    {stmts : List Scoped.Stmt} (initials : InitialsCode slots 0 globals first m)
    (body : StmtsCode slots none m 1 true stmts code falls n k) :
    Layout 0 (first ++ (code ++ closed falls)) :=
  ⟨⟨n, by simpa using initials.defines.append body.defines⟩, k,
    by simpa [initials.labels] using body.labels⟩

end OliCompiler.Lower
