import OliCompiler.Proofs.Lowering.Shape

/-!
Lowered code closes its blocks: wherever a block starts the block before it has an end, and a body that
control falls out of leaves one block open, for what follows.
-/

namespace OliCompiler

namespace Ir.Code

/-- Whether a block is open behind some code, if one is open before it or not. There is no answer if a
block starts where another is open. -/
def closes : (isOpen : Bool) → Code → Option Bool
  | isOpen, [] => some isOpen
  | isOpen, .slot _ :: code | isOpen, .instr _ :: code => closes isOpen code
  | _, .exit _ :: code => closes false code
  | isOpen, .label _ _ :: code => if isOpen then none else closes true code

variable {isOpen : Bool} {code code' inner : Code} {instrs : List Instr}

@[simp]
theorem closes_append : closes isOpen (code ++ code') =
    (closes isOpen code).bind fun isOpen => closes isOpen code' := by
  induction code generalizing isOpen with
  | nil => rfl
  | cons piece code ih =>
    cases piece with
    | label id hint => cases isOpen <;> simp [closes, ih]
    | _ => exact ih

theorem closes_inner (inside : ∀ piece ∈ inner, Inner piece) : closes isOpen inner = some isOpen := by
  induction inside using inner_induction with
  | nil => rfl
  | slot _ ih | instr _ ih => exact ih

@[simp]
theorem closes_ofInstrs : closes isOpen (ofInstrs instrs) = some isOpen :=
  closes_inner inner_ofInstrs

/-- Code that leaves no block open has an end for each block, also for one that is open before it. -/
theorem ends_of_closes (closed : closes isOpen code = some false) :
    (∀ block ∈ blocks code, block.terminator.isSome) ∧ (isOpen = true → (ending code).isSome) := by
  induction code generalizing isOpen with
  | nil =>
    cases closed
    exact ⟨by simp [blocks], by simp⟩
  | cons piece code ih =>
    cases piece with
    | slot | instr => exact ih closed
    | exit => exact ⟨(ih closed).1, fun _ => rfl⟩
    | label id hint =>
      cases isOpen with
      | true => cases closed
      | false =>
        obtain ⟨behind, first⟩ := ih closed
        refine ⟨?_, by simp⟩
        rw [blocks, List.forall_mem_cons]
        exact ⟨first rfl, behind⟩

end Ir.Code

namespace Lower

open Ir Code

variable {slots : List Reg} {target : BlockId} {n n' slot : Nat} {var : Scoped.Var}
  {value : Scoped.Expr} {code : Code} {falls : Bool}

@[simp]
theorem closes_joined : closes falls (joined falls target) = some false := by
  cases falls <;> rfl

theorem DeclareCode.closes (declared : DeclareCode slots n slot value code n') :
    Code.closes true code = some true :=
  closes_inner declared.inner

theorem AssignCode.closes (assigned : AssignCode slots n var value code n') :
    Code.closes true code = some true :=
  closes_inner assigned.inner

mutual

theorem StmtCode.closes : ∀ {targets : Option Targets} {n n' k k' : Nat} {stmt : Scoped.Stmt}
    {code : Code} {falls : Bool},
    StmtCode slots targets n k stmt code falls n' k' → Code.closes true code = some falls
  | _, _, _, _, _, _, _, _, .declare declared => declared.closes
  | _, _, _, _, _, _, _, _, .assign assigned => assigned.closes
  | _, _, _, _, _, _, _, _, .return _ => by simp [Code.closes]
  | _, _, _, _, _, _, _, _, .expr _ => by simp
  | _, _, _, _, _, _, _, reached, .if both => by
    have inner := both.closes
    cases reached <;> simp [inner, Code.closes]
  | _, _, _, _, _, _, _, _, .while _ repeated => by
    simp [Code.closes, repeated.closes]
  | _, _, _, _, _, _, _, _, .for declared _ repeated updated => by
    simp [Code.closes, declared.closes, repeated.closes, updated.closes]
  | _, _, _, _, _, _, _, _, .break => rfl
  | _, _, _, _, _, _, _, _, .continue => rfl

theorem ArmsCode.closes : ∀ {targets : Option Targets} {merge : BlockId} {n n' k k' : Nat}
    {condition : Scoped.Expr} {body : List Scoped.Stmt} {tail : Scoped.Tail} {code : Code}
    {reached : Bool},
    ArmsCode slots targets merge n k condition body tail code reached n' k' →
      Code.closes true code = some false
  | _, _, _, _, _, _, _, _, _, _, _, .mk _ first second => by
    simp [Code.closes, first.closes, second.closes]

theorem TailCode.closes : ∀ {targets : Option Targets} {merge : BlockId} {n n' k k' : Nat}
    {tail : Scoped.Tail} {code : Code} {reached : Bool},
    TailCode slots targets merge n k tail code reached n' k' → Code.closes true code = some false
  | _, _, _, _, _, _, _, _, _, .none => rfl
  | _, _, _, _, _, _, _, _, _, .elseIf both => both.closes
  | _, _, _, _, _, _, _, _, _, .else inner => by simp [inner.closes]

theorem StmtsCode.closes : ∀ {targets : Option Targets} {n n' k k' : Nat} {falls falls' : Bool}
    {stmts : List Scoped.Stmt} {code : Code},
    StmtsCode slots targets n k falls stmts code falls' n' k' → Code.closes falls code = some falls'
  | _, _, _, _, _, _, _, _, _, .nil => rfl
  | _, _, _, _, _, _, _, _, _, .cons first rest => by simp [first.closes, rest.closes]
  | _, _, _, _, _, _, _, _, _, .dead first rest => by
    simp [Code.closes, first.closes, rest.closes]

end

@[simp]
theorem closes_closed : closes falls (closed falls) = some false := by
  cases falls <;> rfl

@[simp]
theorem closes_paramsCode {regs : List Reg} {isOpen : Bool} :
    closes isOpen (paramsCode n regs) = some isOpen :=
  closes_inner inner_paramsCode

theorem InitialsCode.closes {globals : List (String × Scoped.Expr)}
    (initials : InitialsCode slots n globals code n') : Code.closes true code = some true :=
  closes_inner initials.inner

theorem FunctionCode.closes {function : Scoped.Function} (body : FunctionCode function code) :
    Code.closes false code = some false := by
  cases body with
  | mk all body => simp [Code.closes, body.closes]

theorem MainCode.closes {program : Scoped.Program} (main : MainCode program code) :
    Code.closes false code = some false := by
  cases main with
  | mk all globals body => simp [Code.closes, globals.closes, body.closes]

end Lower

end OliCompiler
