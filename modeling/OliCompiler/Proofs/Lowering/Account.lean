import OliCompiler.Proofs.Lowering.Shape
import OliCompiler.Proofs.Scope.WellScoped

/-!
What the code of a construct takes of the numbers of its function. Registers are defined in order
without gaps, and each number of a block labels one block at most.
-/

namespace OliCompiler.Lower

open Ir

/-- The registers from one number up to another. -/
def numbered (n n' : Nat) : List Reg := (List.range' n (n' - n)).map Reg.mk

theorem numbered_self (n : Nat) : numbered n n = [] := by simp [numbered]

theorem numbered_succ (n : Nat) : numbered n (n + 1) = [⟨n⟩] := by simp [numbered]

theorem numbered_append {n m n' : Nat} (first : n ≤ m) (second : m ≤ n') :
    numbered n m ++ numbered m n' = numbered n n' := by
  obtain ⟨a, rfl⟩ := Nat.exists_eq_add_of_le first
  obtain ⟨b, rfl⟩ := Nat.exists_eq_add_of_le second
  rw [numbered, numbered, numbered, ← List.map_append, Nat.add_sub_cancel_left,
    Nat.add_sub_cancel_left, List.range'_append_1, Nat.add_assoc, Nat.add_sub_cancel_left]

theorem mem_numbered {n n' : Nat} {reg : Reg} :
    reg ∈ numbered n n' ↔ n ≤ reg.index ∧ reg.index < n' := by
  cases reg with
  | mk index =>
    simp [numbered]
    omega

theorem numbered_nodup (n n' : Nat) : (numbered n n').Nodup :=
  (List.nodup_range' 1).map fun _ _ same => Reg.mk.inj same

theorem getElem?_numbered {n n' offset : Nat} (inside : n + offset < n') :
    (numbered n n')[offset]? = some ⟨n + offset⟩ := by
  have less : offset < n' - n := by omega
  simp [numbered, less]

/-- Registers in order from `n` up to `n'`. -/
structure Defines (n : Nat) (regs : List Reg) (n' : Nat) : Prop where
  le : n ≤ n'
  all : regs = numbered n n'

namespace Defines

theorem nil {n : Nat} : Defines n [] n := ⟨Nat.le_refl n, (numbered_self n).symm⟩

theorem one {n : Nat} : Defines n [⟨n⟩] (n + 1) := ⟨Nat.le_succ n, (numbered_succ n).symm⟩

theorem append {n m n' : Nat} {regs regs' : List Reg} (first : Defines n regs m)
    (second : Defines m regs' n') : Defines n (regs ++ regs') n' :=
  ⟨Nat.le_trans first.le second.le, by rw [first.all, second.all, numbered_append first.le second.le]⟩

end Defines

/-- Distinct numbers of blocks from `k` up to `k'`. -/
structure Labels (k : Nat) (ids : List BlockId) (k' : Nat) : Prop where
  le : k ≤ k'
  distinct : ids.Nodup
  within : ∀ id ∈ ids, k ≤ id.index ∧ id.index < k'

namespace Labels

theorem nil {k : Nat} : Labels k [] k := ⟨Nat.le_refl k, List.nodup_nil, by simp⟩

theorem append {k m k' : Nat} {ids ids' : List BlockId} (first : Labels k ids m)
    (second : Labels m ids' k') : Labels k (ids ++ ids') k' := by
  refine ⟨Nat.le_trans first.le second.le, first.distinct.append second.distinct ?_, ?_⟩
  · intro id member memberToo
    have := first.within id member
    have := second.within id memberToo
    omega
  · intro id member
    have := first.le
    have := second.le
    rcases List.mem_append.mp member with member | member
    · have := first.within id member
      omega
    · have := second.within id member
      omega

/-- The number before those in use may stand anywhere among them. -/
theorem insert {k k' : Nat} {ids ids' : List BlockId} (rest : Labels (k + 1) (ids ++ ids') k') :
    Labels k (ids ++ ⟨k⟩ :: ids') k' := by
  have absent : ⟨k⟩ ∉ ids ++ ids' := by
    intro member
    exact Nat.not_succ_le_self k (rest.within _ member).1
  refine ⟨Nat.le_of_succ_le rest.le, ?_, ?_⟩
  · exact List.perm_middle.nodup_iff.mpr (List.nodup_cons.mpr ⟨absent, rest.distinct⟩)
  · intro id member
    rcases List.mem_cons.mp (List.perm_middle.mem_iff.mp member) with rfl | member
    · exact ⟨Nat.le_refl k, rest.le⟩
    · have := rest.within id member
      omega

theorem not_mem {k k' : Nat} {ids : List BlockId} {index : Nat} (labels : Labels k ids k')
    (outside : index < k) : ⟨index⟩ ∉ ids := by
  intro member
  exact Nat.not_lt.mpr (labels.within _ member).1 outside

end Labels

variable {slots : List Reg}

/-- The results of instructions. -/
def results (instrs : List Instr) : List Reg := instrs.filterMap Instr.result

@[simp]
theorem results_append {instrs instrs' : List Instr} :
    results (instrs ++ instrs') = results instrs ++ results instrs' := List.filterMap_append

@[simp]
theorem results_some {reg : Reg} {op : Op} : results [⟨some reg, op⟩] = [reg] := rfl

@[simp]
theorem defined_ofInstrs {instrs : List Instr} :
    Code.defined (Code.ofInstrs instrs) = results instrs := by
  induction instrs with
  | nil => rfl
  | cons instr instrs ih =>
    cases instr with
    | mk result op =>
      unfold Code.ofInstrs at ih
      cases result <;> simp [Code.ofInstrs, Code.defined, results, ih]

mutual

theorem ExprCode.defines : ∀ {n n' : Nat} {value : Scoped.Expr} {code : List Instr}
    {result : Result}, ExprCode slots n value code result n' → Defines n (results code) n'
  | _, _, _, _, _, .int => .nil
  | _, _, _, _, _, .var => .one
  | _, _, _, _, _, .print argument => by
    simpa using argument.defines.append .one
  | _, _, _, _, _, .call arguments => by
    simpa using arguments.defines.append .one
  | _, _, _, _, _, .arith first second => by
    simpa using (first.defines.append second.defines).append .one
  | _, _, _, _, _, .compare first second => by
    simpa using (first.defines.append second.defines).append .one

theorem WordCode.defines : ∀ {n n' : Nat} {value : Scoped.Expr} {code : List Instr}
    {operand : Operand}, WordCode slots n value code operand n' → Defines n (results code) n'
  | _, _, _, _, _, .word same => same.defines
  | _, _, _, _, _, .truth narrow => by
    simpa using narrow.defines.append .one

theorem WordsCode.defines : ∀ {n n' : Nat} {values : List Scoped.Expr} {code : List Instr}
    {operands : List Operand},
    WordsCode slots n values code operands n' → Defines n (results code) n'
  | _, _, _, _, _, .nil => .nil
  | _, _, _, _, _, .cons first rest => by
    simpa using first.defines.append rest.defines

end

theorem TestCode.defines {n n' : Nat} {value : Scoped.Expr} {code : List Instr} {operand : Operand}
    (test : TestCode slots n value code operand n') : Defines n (results code) n' := by
  cases test with
  | truth same => exact same.defines
  | word wide => simpa using wide.defines.append .one

theorem DeclareCode.defines {n n' slot : Nat} {value : Scoped.Expr} {code : Code}
    (declared : DeclareCode slots n slot value code n') : Defines n (Code.defined code) n' := by
  cases declared with
  | mk word => simpa [Code.defined] using word.defines.append .one

theorem AssignCode.defines {n n' : Nat} {var : Scoped.Var} {value : Scoped.Expr} {code : Code}
    (assigned : AssignCode slots n var value code n') : Defines n (Code.defined code) n' := by
  cases assigned with
  | mk word => simpa [Code.defined] using word.defines

@[simp]
theorem defined_joined {falls : Bool} {target : BlockId} :
    Code.defined (joined falls target) = [] := by
  cases falls <;> rfl

mutual

theorem StmtCode.defines : ∀ {targets : Option Targets} {n n' k k' : Nat} {stmt : Scoped.Stmt}
    {code : Code} {falls : Bool},
    StmtCode slots targets n k stmt code falls n' k' → Defines n (Code.defined code) n'
  | _, _, _, _, _, _, _, _, .declare declared => declared.defines
  | _, _, _, _, _, _, _, _, .assign assigned => assigned.defines
  | _, _, _, _, _, _, _, _, .return word => by simpa [Code.defined] using word.defines
  | _, _, _, _, _, _, _, _, .expr computed => by simpa using computed.defines
  | _, _, _, _, _, _, _, reached, .if both => by
    have inner := both.defines
    cases reached <;> simpa [Code.defined] using inner
  | _, _, _, _, _, _, _, _, .while test repeated => by
    simpa [Code.defined] using test.defines.append repeated.defines
  | _, _, _, _, _, _, _, _, .for declared test repeated updated => by
    simpa [Code.defined] using
      declared.defines.append (test.defines.append (repeated.defines.append updated.defines))
  | _, _, _, _, _, _, _, _, .break => .nil
  | _, _, _, _, _, _, _, _, .continue => .nil

theorem ArmsCode.defines : ∀ {targets : Option Targets} {merge : BlockId} {n n' k k' : Nat}
    {condition : Scoped.Expr} {body : List Scoped.Stmt} {tail : Scoped.Tail} {code : Code}
    {reached : Bool},
    ArmsCode slots targets merge n k condition body tail code reached n' k' →
      Defines n (Code.defined code) n'
  | _, _, _, _, _, _, _, _, _, _, _, .mk test first second => by
    simpa [Code.defined] using test.defines.append (first.defines.append second.defines)

theorem TailCode.defines : ∀ {targets : Option Targets} {merge : BlockId} {n n' k k' : Nat}
    {tail : Scoped.Tail} {code : Code} {reached : Bool},
    TailCode slots targets merge n k tail code reached n' k' → Defines n (Code.defined code) n'
  | _, _, _, _, _, _, _, _, _, .none => .nil
  | _, _, _, _, _, _, _, _, _, .elseIf both => both.defines
  | _, _, _, _, _, _, _, _, _, .else inner => by simpa using inner.defines

theorem StmtsCode.defines : ∀ {targets : Option Targets} {n n' k k' : Nat}
    {stmts : List Scoped.Stmt} {code : Code} {falls falls' : Bool},
    StmtsCode slots targets n k falls stmts code falls' n' k' → Defines n (Code.defined code) n'
  | _, _, _, _, _, _, _, _, _, .nil => .nil
  | _, _, _, _, _, _, _, _, _, .cons first rest => by
    simpa using first.defines.append rest.defines
  | _, _, _, _, _, _, _, _, _, .dead first rest => by
    simpa [Code.defined] using first.defines.append rest.defines

end

@[simp]
theorem labels_joined {falls : Bool} {target : BlockId} :
    Code.labels (joined falls target) = [] := by
  cases falls <;> rfl

theorem DeclareCode.labels {n n' slot : Nat} {value : Scoped.Expr} {code : Code}
    (declared : DeclareCode slots n slot value code n') : Code.labels code = [] :=
  Code.labels_inner declared.inner

theorem AssignCode.labels {n n' : Nat} {var : Scoped.Var} {value : Scoped.Expr} {code : Code}
    (assigned : AssignCode slots n var value code n') : Code.labels code = [] :=
  Code.labels_inner assigned.inner

mutual

theorem StmtCode.labels : ∀ {targets : Option Targets} {n n' k k' : Nat} {stmt : Scoped.Stmt}
    {code : Code} {falls : Bool},
    StmtCode slots targets n k stmt code falls n' k' → Labels k (Code.labels code) k'
  | _, _, _, _, _, _, _, _, .declare declared => declared.labels ▸ .nil
  | _, _, _, _, _, _, _, _, .assign assigned => assigned.labels ▸ .nil
  | _, _, _, _, _, _, _, _, .return word => by simpa [Code.labels] using .nil
  | _, _, _, _, _, _, _, _, .expr computed => by simpa using .nil
  | _, _, _, k, _, _, _, reached, .if both => by
    have inner := @Labels.insert k _ _ [] (by simpa using both.labels)
    cases reached <;> simpa [Code.labels] using inner
  | _, _, _, k, _, _, _, _, .while test repeated => by
    have behind := @Labels.insert (k + 2) _ _ [] (by simpa using repeated.labels)
    have inner := @Labels.insert (k + 1) _ [] _ behind
    simpa [Code.labels] using @Labels.insert k _ [] _ inner
  | _, _, _, k, _, _, _, _, .for declared test repeated updated => by
    have behind := @Labels.insert (k + 3) _ _ [] (by simpa using repeated.labels)
    have inner := @Labels.insert (k + 1) _ [] _ behind.insert
    simpa [Code.labels, declared.labels, updated.labels] using @Labels.insert k _ [] _ inner
  | _, _, _, _, _, _, _, _, .break => .nil
  | _, _, _, _, _, _, _, _, .continue => .nil

theorem ArmsCode.labels : ∀ {targets : Option Targets} {merge : BlockId} {n n' k k' : Nat}
    {condition : Scoped.Expr} {body : List Scoped.Stmt} {tail : Scoped.Tail} {code : Code}
    {reached : Bool},
    ArmsCode slots targets merge n k condition body tail code reached n' k' →
      Labels k (Code.labels code) k'
  | _, _, _, _, k, _, _, _, _, _, _, .mk test first second => by
    have inner := @Labels.insert (k + 1) _ _ _ (first.labels.append second.labels)
    simpa [Code.labels] using @Labels.insert k _ [] _ inner

theorem TailCode.labels : ∀ {targets : Option Targets} {merge : BlockId} {n n' k k' : Nat}
    {tail : Scoped.Tail} {code : Code} {reached : Bool},
    TailCode slots targets merge n k tail code reached n' k' → Labels k (Code.labels code) k'
  | _, _, _, _, _, _, _, _, _, .none => .nil
  | _, _, _, _, _, _, _, _, _, .elseIf both => both.labels
  | _, _, _, _, _, _, _, _, _, .else inner => by simpa using inner.labels

theorem StmtsCode.labels : ∀ {targets : Option Targets} {n n' k k' : Nat}
    {stmts : List Scoped.Stmt} {code : Code} {falls falls' : Bool},
    StmtsCode slots targets n k falls stmts code falls' n' k' → Labels k (Code.labels code) k'
  | _, _, _, _, _, _, _, _, _, .nil => .nil
  | _, _, _, _, _, _, _, _, _, .cons first rest => by
    simpa using first.labels.append rest.labels
  | _, _, _, k, _, _, _, _, _, .dead first rest => by
    simpa [Code.labels] using @Labels.insert k _ [] _ (first.labels.append rest.labels)

end

theorem DeclareCode.slots_length {n n' slot : Nat} {value : Scoped.Expr} {code : Code}
    (declared : DeclareCode slots n slot value code n') : (Code.slots code).length = 1 := by
  cases declared with
  | mk word => simp [Code.slots]

theorem AssignCode.slots_length {n n' : Nat} {var : Scoped.Var} {value : Scoped.Expr} {code : Code}
    (assigned : AssignCode slots n var value code n') : (Code.slots code).length = 0 := by
  cases assigned with
  | mk word => simp [Code.slots]

@[simp]
theorem slots_joined {falls : Bool} {target : BlockId} :
    Code.slots (joined falls target) = [] := by
  cases falls <;> rfl

mutual

/-- A statement asks for one stack slot for each local that it declares. -/
theorem StmtCode.slots_length : ∀ {targets : Option Targets} {n n' k k' : Nat} {stmt : Scoped.Stmt}
    {code : Code} {falls : Bool},
    StmtCode slots targets n k stmt code falls n' k' → (Code.slots code).length = stmt.declares
  | _, _, _, _, _, _, _, _, .declare declared => declared.slots_length
  | _, _, _, _, _, _, _, _, .assign assigned => assigned.slots_length
  | _, _, _, _, _, _, _, _, .return word => by simp [Code.slots, Scoped.Stmt.declares]
  | _, _, _, _, _, _, _, _, .expr computed => by simp [Scoped.Stmt.declares]
  | _, _, _, _, _, _, _, reached, .if both => by
    have inner := both.slots_length
    cases reached <;> simpa [Code.slots, Scoped.Stmt.declares] using inner
  | _, _, _, _, _, _, _, _, .while test repeated => by
    simpa [Code.slots, Scoped.Stmt.declares] using repeated.slots_length
  | _, _, _, _, _, _, _, _, .for declared test repeated updated => by
    simp [Code.slots, Scoped.Stmt.declares, declared.slots_length, repeated.slots_length,
      updated.slots_length]
  | _, _, _, _, _, _, _, _, .break => rfl
  | _, _, _, _, _, _, _, _, .continue => rfl

theorem ArmsCode.slots_length : ∀ {targets : Option Targets} {merge : BlockId} {n n' k k' : Nat}
    {condition : Scoped.Expr} {body : List Scoped.Stmt} {tail : Scoped.Tail} {code : Code}
    {reached : Bool},
    ArmsCode slots targets merge n k condition body tail code reached n' k' →
      (Code.slots code).length = Scoped.Stmt.declaresAll body + tail.declares
  | _, _, _, _, _, _, _, _, _, _, _, .mk test first second => by
    simp [Code.slots, first.slots_length, second.slots_length]

theorem TailCode.slots_length : ∀ {targets : Option Targets} {merge : BlockId} {n n' k k' : Nat}
    {tail : Scoped.Tail} {code : Code} {reached : Bool},
    TailCode slots targets merge n k tail code reached n' k' →
      (Code.slots code).length = tail.declares
  | _, _, _, _, _, _, _, _, _, .none => rfl
  | _, _, _, _, _, _, _, _, _, .elseIf both => both.slots_length
  | _, _, _, _, _, _, _, _, _, .else inner => by
    simpa [Scoped.Tail.declares] using inner.slots_length

theorem StmtsCode.slots_length : ∀ {targets : Option Targets} {n n' k k' : Nat}
    {stmts : List Scoped.Stmt} {code : Code} {falls falls' : Bool},
    StmtsCode slots targets n k falls stmts code falls' n' k' →
      (Code.slots code).length = Scoped.Stmt.declaresAll stmts
  | _, _, _, _, _, _, _, _, _, .nil => rfl
  | _, _, _, _, _, _, _, _, _, .cons first rest => by
    simp [Scoped.Stmt.declaresAll, first.slots_length, rest.slots_length]
  | _, _, _, _, _, _, _, _, _, .dead first rest => by
    simp [Code.slots, Scoped.Stmt.declaresAll, first.slots_length, rest.slots_length]

end

end OliCompiler.Lower
