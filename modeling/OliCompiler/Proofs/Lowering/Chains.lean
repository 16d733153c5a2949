import OliCompiler.Proofs.Lowering.Marking
import OliCompiler.Proofs.Texts.Lowered

/-!
The chains of `if` and `else if` in a program. Settling the names keeps them, and the code of a construct
has one block for the end of each, however many links it has.
-/

namespace OliCompiler

mutual

/-- How many chains a statement holds, itself included. -/
def Stmt.chains : Stmt → Nat
  | .if _ body tail => Stmt.chainsAll body + tail.chains + 1
  | .while _ body | .for _ _ _ body => Stmt.chainsAll body
  | .declare _ | .assign _ | .return _ | .expr _ | .break _ | .continue _ => 0

/-- How many chains the bodies of the further links hold. The links belong to the chain that they go on. -/
def Tail.chains : Tail → Nat
  | .none => 0
  | .elseIf _ body tail => Stmt.chainsAll body + tail.chains
  | .else body => Stmt.chainsAll body

def Stmt.chainsAll : List Stmt → Nat
  | [] => 0
  | stmt :: stmts => stmt.chains + Stmt.chainsAll stmts

end

namespace Scoped

mutual

/-- How many chains a statement with settled names holds. -/
def Stmt.chains : Stmt → Nat
  | .if _ body tail => Stmt.chainsAll body + tail.chains + 1
  | .while _ body | .for _ _ _ _ _ body => Stmt.chainsAll body
  | .declare _ _ | .assign _ _ | .return _ | .expr _ | .break | .continue => 0

def Tail.chains : Tail → Nat
  | .none => 0
  | .elseIf _ body tail => Stmt.chainsAll body + tail.chains
  | .else body => Stmt.chainsAll body

def Stmt.chainsAll : List Stmt → Nat
  | [] => 0
  | stmt :: stmts => stmt.chains + Stmt.chainsAll stmts

end

end Scoped

/-! ## Settling names -/

variable {symbols : Symbols}

mutual

theorem resolveStmt_chains : ∀ {inLoop : Bool} {locals after : Locals} {stmt : Stmt}
    {settled : Scoped.Stmt},
    resolveStmt symbols inLoop locals stmt = .ok (settled, after) → settled.chains = stmt.chains
  | _, _, _, .declare _, _, resolved => by
    obtain ⟨_, _, _, rfl⟩ := resolveStmt_declare.mp resolved
    rfl
  | _, _, _, .assign _, _, resolved => by
    obtain ⟨_, _, _, _, rfl, _⟩ := resolveStmt_assign.mp resolved
    rfl
  | _, _, _, .return _, _, resolved => by
    obtain ⟨_, _, rfl, _⟩ := resolveStmt_return.mp resolved
    rfl
  | _, _, _, .expr _, _, resolved => by
    obtain ⟨_, _, rfl, _⟩ := resolveStmt_expr.mp resolved
    rfl
  | _, _, _, .if _ _ _, _, resolved => by
    obtain ⟨_, _, _, _, body, _, _, tail, rfl, _⟩ := resolveStmt_if.mp resolved
    rw [Scoped.Stmt.chains, Stmt.chains, resolveStmts_chains body, resolveTail_chains tail]
  | _, _, _, .while _ _, _, resolved => by
    obtain ⟨_, _, _, _, body, rfl, _⟩ := resolveStmt_while.mp resolved
    exact resolveStmts_chains body
  | _, _, _, .for _ _ _ _, _, resolved => by
    obtain ⟨_, _, _, _, _, _, _, _, body, _, _, _, _, rfl, _⟩ := resolveStmt_for.mp resolved
    exact resolveStmts_chains body
  | _, _, _, .break _, _, resolved => by
    obtain ⟨_, rfl, _⟩ := resolveStmt_break.mp resolved
    rfl
  | _, _, _, .continue _, _, resolved => by
    obtain ⟨_, rfl, _⟩ := resolveStmt_continue.mp resolved
    rfl

theorem resolveTail_chains : ∀ {inLoop : Bool} {locals after : Locals} {tail : Tail}
    {settled : Scoped.Tail},
    resolveTail symbols inLoop locals tail = .ok (settled, after) → settled.chains = tail.chains
  | _, _, _, .none, _, resolved => by
    obtain ⟨rfl, _⟩ := resolveTail_none.mp resolved
    rfl
  | _, _, _, .elseIf _ _ _, _, resolved => by
    obtain ⟨_, _, _, _, body, _, _, tail, rfl, _⟩ := resolveTail_elseIf.mp resolved
    rw [Scoped.Tail.chains, Tail.chains, resolveStmts_chains body, resolveTail_chains tail]
  | _, _, _, .else _, _, resolved => by
    obtain ⟨_, _, body, rfl, _⟩ := resolveTail_else.mp resolved
    exact resolveStmts_chains body

theorem resolveStmts_chains : ∀ {inLoop : Bool} {locals after : Locals} {stmts : List Stmt}
    {settled : List Scoped.Stmt},
    resolveStmts symbols inLoop locals stmts = .ok (settled, after) →
      Scoped.Stmt.chainsAll settled = Stmt.chainsAll stmts
  | _, _, _, [], _, resolved => by
    obtain ⟨rfl, _⟩ := resolveStmts_nil.mp resolved
    rfl
  | _, _, _, _ :: _, _, resolved => by
    obtain ⟨_, _, first, _, _, rest, rfl, _⟩ := resolveStmts_cons.mp resolved
    rw [Scoped.Stmt.chainsAll, Stmt.chainsAll, resolveStmt_chains first, resolveStmts_chains rest]

end

/-! ## The ends of chains -/

namespace Lower

open Ir

/-- How many blocks of some code stand behind an `if`. -/
def merges (code : Code) : Nat := (Code.hints code).count mergeHint

variable {code code' : Code} {slots : List Reg}

theorem merges_of_hints (bare : Code.hints code = []) : merges code = 0 := by
  rw [merges, bare, List.count_nil]

@[simp]
theorem merges_append : merges (code ++ code') = merges code + merges code' := by
  rw [merges, Code.hints_append, List.count_append, merges, merges]

@[simp]
theorem merges_ofInstrs {instrs : List Instr} : merges (Code.ofInstrs instrs) = 0 :=
  merges_of_hints Code.hints_ofInstrs

@[simp]
theorem merges_exit {terminator : Terminator} : merges (.exit terminator :: code) = merges code := rfl

@[simp]
theorem merges_label {id : BlockId} {hint : String} :
    merges (.label id hint :: code) = merges code + if hint = "if.end" then 1 else 0 := by
  simp [merges, Code.hints, List.count_cons, mergeHint]

@[simp]
theorem merges_nil : merges [] = 0 := rfl

@[simp]
theorem merges_joined {falls : Bool} {target : BlockId} : merges (joined falls target) = 0 :=
  merges_of_hints hints_joined

@[simp]
theorem merges_closed {falls : Bool} : merges (closed falls) = 0 := merges_of_hints hints_closed

mutual

theorem StmtCode.merges_eq : ∀ {targets : Option Targets} {n n' k k' : Nat} {stmt : Scoped.Stmt}
    {code : Code} {falls : Bool},
    StmtCode slots targets n k stmt code falls n' k' → merges code = stmt.chains
  | _, _, _, _, _, _, _, _, .declare declared => merges_of_hints declared.hints
  | _, _, _, _, _, _, _, _, .assign assigned => merges_of_hints assigned.hints
  | _, _, _, _, _, _, _, _, .return _ => by simp [Scoped.Stmt.chains]
  | _, _, _, _, _, _, _, _, .expr _ => merges_ofInstrs
  | _, _, _, _, _, _, _, reached, .if both => by
    have inner := both.merges_eq
    cases reached <;> simp [inner, Scoped.Stmt.chains]
  | _, _, _, _, _, _, _, _, .while _ repeated => by
    simp [repeated.merges_eq, Scoped.Stmt.chains]
  | _, _, _, _, _, _, _, _, .for declared _ repeated updated => by
    simp [merges_of_hints declared.hints, merges_of_hints updated.hints, repeated.merges_eq,
      Scoped.Stmt.chains]
  | _, _, _, _, _, _, _, _, .break => rfl
  | _, _, _, _, _, _, _, _, .continue => rfl

theorem ArmsCode.merges_eq : ∀ {targets : Option Targets} {merge : BlockId} {n n' k k' : Nat}
    {condition : Scoped.Expr} {body : List Scoped.Stmt} {tail : Scoped.Tail} {code : Code}
    {reached : Bool}, ArmsCode slots targets merge n k condition body tail code reached n' k' →
      merges code = Scoped.Stmt.chainsAll body + tail.chains
  | _, _, _, _, _, _, _, _, _, _, _, .mk _ first second => by
    simp [first.merges_eq, second.merges_eq]

theorem TailCode.merges_eq : ∀ {targets : Option Targets} {merge : BlockId} {n n' k k' : Nat}
    {tail : Scoped.Tail} {code : Code} {reached : Bool},
    TailCode slots targets merge n k tail code reached n' k' → merges code = tail.chains
  | _, _, _, _, _, _, _, _, _, .none => rfl
  | _, _, _, _, _, _, _, _, _, .elseIf both => both.merges_eq
  | _, _, _, _, _, _, _, _, _, .else inner => by simp [inner.merges_eq, Scoped.Tail.chains]

theorem StmtsCode.merges_eq : ∀ {targets : Option Targets} {n n' k k' : Nat} {falls falls' : Bool}
    {stmts : List Scoped.Stmt} {code : Code},
    StmtsCode slots targets n k falls stmts code falls' n' k' →
      merges code = Scoped.Stmt.chainsAll stmts
  | _, _, _, _, _, _, _, _, _, .nil => rfl
  | _, _, _, _, _, _, _, _, _, .cons first rest => by
    rw [merges_append, first.merges_eq, rest.merges_eq, Scoped.Stmt.chainsAll]
  | _, _, _, _, _, _, _, _, _, .dead first rest => by
    simp [first.merges_eq, rest.merges_eq, Scoped.Stmt.chainsAll]

end

end Lower

end OliCompiler
