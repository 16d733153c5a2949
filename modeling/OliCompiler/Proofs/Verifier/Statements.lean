import OliCompiler.Proofs.Lowering.Account
import OliCompiler.Proofs.Verifier.Pieces

/-!
The code of expressions and statements is as the verifier asks.
-/

namespace OliCompiler.Lower

open Ir

/-- Whether a module declares the names that a tree is settled under. -/
structure Declares (module : Ir.Module) (symbols : Symbols) : Prop where
  globals : ∀ name ∈ symbols.globals,
    ∃ global ∈ module.globals, global.name = name ∧ global.ty = .i32 ∧ global.constant = false
  functions : ∀ {callee : String} {arity : Nat}, (callee, arity) ∈ symbols.functions →
    ∃ target, module.function? callee = some target ∧ target.external = false ∧
      target.params.length = arity
  printer : ∃ target, module.function? printerName = some target ∧ target.external = true

/-- Whether the result of an expression is known in a context. -/
def Result.Known (around : Surroundings) (context : Context) : Result → Prop
  | .word operand => operand.HasKind around context .word
  | .truth operand => operand.HasKind around context .truth

variable {around : Surroundings} {symbols : Symbols} {count : Nat} {context : Context}

theorem place_hasKind (declares : Declares around.module symbols) (le : count ≤ around.slots.length)
    {var : Scoped.Var} (settled : var.InScope symbols count) :
    (place around.slots var).HasKind around context .address := by
  cases var with
  | global name => exact ⟨rfl, declares.globals name settled⟩
  | «local» slot =>
    have inside : slot < around.slots.length := Nat.lt_of_lt_of_le settled le
    refine .inr ⟨?_, rfl⟩
    rw [List.getElem?_eq_getElem inside, Option.getD_some]
    exact List.getElem_mem inside

/-- A register that an instruction has just assigned is known. -/
theorem assigned_hasKind {n : Nat} {op : Op} {kind : Kind} (kinded : op.kind = some kind) :
    (Operand.reg ⟨n⟩).HasKind around (behind context [⟨some ⟨n⟩, op⟩]) kind := by
  refine .inl ?_
  simp [behind, Instr.extend, kinded]

theorem allowed_one {n : Nat} {op : Op} (allowed : op.Allowed around context)
    (kinded : op.kind.isSome = true) : AllAllowed around context [⟨some ⟨n⟩, op⟩] :=
  ⟨⟨allowed, kinded.symm⟩, trivial⟩

/-- An operand is still known behind the code of the next one. -/
theorem operands_known {code code' : List Instr} {a b : Operand} {kind : Kind}
    (first : AllAllowed around context code ∧ a.HasKind around (behind context code) kind)
    (second : AllAllowed around (behind context code) code' ∧
      b.HasKind around (behind (behind context code) code') kind) :
    AllAllowed around context (code ++ code') ∧
      a.HasKind around (behind context (code ++ code')) kind ∧
      b.HasKind around (behind context (code ++ code')) kind := by
  rw [behind_append]
  exact ⟨first.1.append second.1, first.2.mono subset_behind, second.2⟩

mutual

theorem ExprCode.verified (declares : Declares around.module symbols)
    (le : count ≤ around.slots.length) : ∀ {n n' : Nat} {value : Scoped.Expr} {code : List Instr}
    {result : Result}, ExprCode around.slots n value code result n' → value.InScope symbols count →
      ∀ context : Context, AllAllowed around context code ∧
        result.Known around (behind context code)
  | _, _, _, _, _, .int, _, _ => ⟨trivial, rfl⟩
  | _, _, _, _, _, .var, settled, _ =>
    ⟨allowed_one (place_hasKind declares le settled) rfl, assigned_hasKind rfl⟩
  | _, _, _, _, _, .print argument, settled, context => by
    obtain ⟨first, known⟩ := argument.verified declares le settled context
    obtain ⟨target, found, external⟩ := declares.printer
    have call : CallAllowed around (behind context _) printerName [.global formatName, _] :=
      ⟨target, found, by rw [if_pos external]; exact ⟨rfl, _, rfl, known⟩⟩
    exact ⟨first.append (allowed_one call rfl), behind_append ▸ assigned_hasKind rfl⟩
  | _, _, _, _, _, .call arguments, settled, context => by
    obtain ⟨first, length, known⟩ := arguments.verified declares le settled.2 context
    obtain ⟨target, found, inside, arity⟩ := declares.functions settled.1
    have call : CallAllowed around (behind context _) _ _ :=
      ⟨target, found, by rw [if_neg (by simp [inside])]; exact ⟨length.trans arity.symm, known⟩⟩
    exact ⟨first.append (allowed_one call rfl), behind_append ▸ assigned_hasKind rfl⟩
  | _, _, _, _, _, .arith first second, settled, context => by
    obtain ⟨both, known⟩ := operands_known (first.verified declares le settled.1 context)
      (second.verified declares le settled.2 _)
    exact ⟨both.append (allowed_one known rfl), behind_append ▸ assigned_hasKind rfl⟩
  | _, _, _, _, _, .compare first second, settled, context => by
    obtain ⟨both, known⟩ := operands_known (first.verified declares le settled.1 context)
      (second.verified declares le settled.2 _)
    exact ⟨both.append (allowed_one known rfl), behind_append ▸ assigned_hasKind rfl⟩

theorem WordCode.verified (declares : Declares around.module symbols)
    (le : count ≤ around.slots.length) : ∀ {n n' : Nat} {value : Scoped.Expr} {code : List Instr}
    {operand : Operand}, WordCode around.slots n value code operand n' →
      value.InScope symbols count → ∀ context : Context, AllAllowed around context code ∧
        operand.HasKind around (behind context code) .word
  | _, _, _, _, _, .word same, settled, context => same.verified declares le settled context
  | _, _, _, _, _, .truth narrow, settled, context => by
    obtain ⟨first, known⟩ := narrow.verified declares le settled context
    exact ⟨first.append (allowed_one ⟨known, rfl⟩ rfl), behind_append ▸ assigned_hasKind rfl⟩

theorem WordsCode.verified (declares : Declares around.module symbols)
    (le : count ≤ around.slots.length) : ∀ {n n' : Nat} {values : List Scoped.Expr}
    {code : List Instr} {operands : List Operand},
    WordsCode around.slots n values code operands n' → Scoped.Expr.AllInScope symbols count values →
      ∀ context : Context, AllAllowed around context code ∧ operands.length = values.length ∧
        ∀ operand ∈ operands, operand.HasKind around (behind context code) .word
  | _, _, _, _, _, .nil, _, _ => ⟨trivial, rfl, by simp⟩
  | _, _, _, _, _, .cons first rest, settled, context => by
    obtain ⟨one, known⟩ := first.verified declares le settled.1 context
    obtain ⟨two, length, others⟩ := rest.verified declares le settled.2 (behind context _)
    rw [behind_append]
    refine ⟨one.append two, congrArg (· + 1) length, List.forall_mem_cons.mpr ⟨?_, others⟩⟩
    exact known.mono subset_behind

end

theorem TestCode.verified (declares : Declares around.module symbols)
    (le : count ≤ around.slots.length) {n n' : Nat} {value : Scoped.Expr} {code : List Instr}
    {operand : Operand} (test : TestCode around.slots n value code operand n')
    (settled : value.InScope symbols count) (context : Context) :
    AllAllowed around context code ∧ operand.HasKind around (behind context code) .truth := by
  cases test with
  | truth same => exact same.verified declares le settled context
  | word wide =>
    obtain ⟨first, known⟩ := wide.verified declares le settled context
    exact ⟨first.append (allowed_one ⟨known, rfl⟩ rfl), behind_append ▸ assigned_hasKind rfl⟩

/-- The code of a value and a store of it to an address. -/
theorem verified_store {code : List Instr} {address operand : Operand} {rest : Code}
    (value : AllAllowed around context code ∧ operand.HasKind around (behind context code) .word)
    (addressed : ∀ context, address.HasKind around context .address)
    (verified : ∀ context, Code.Verified around context rest) :
    Code.Verified around context
      (Code.ofInstrs code ++ .instr ⟨none, .store address operand⟩ :: rest) :=
  .ofInstrs value.1 ⟨⟨⟨addressed _, value.2⟩, rfl⟩, verified _⟩

theorem DeclareCode.verified (declares : Declares around.module symbols)
    (le : count ≤ around.slots.length) {n n' slot : Nat} {value : Scoped.Expr} {code : Code}
    (declared : DeclareCode around.slots n slot value code n')
    (settled : value.InScope symbols count) (context : Context) :
    Code.Verified around context code := by
  cases declared with
  | mk word numbered =>
    obtain ⟨first, known⟩ := word.verified declares le settled context
    have slotted := List.mem_of_getElem? numbered
    exact .ofInstrs first ⟨⟨⟨.inr ⟨slotted, rfl⟩, known⟩, rfl⟩, trivial⟩

theorem AssignCode.verified (declares : Declares around.module symbols)
    (le : count ≤ around.slots.length) {n n' : Nat} {var : Scoped.Var} {value : Scoped.Expr}
    {code : Code} (assigned : AssignCode around.slots n var value code n')
    (found : var.InScope symbols count) (settled : value.InScope symbols count) (context : Context) :
    Code.Verified around context code := by
  cases assigned with
  | mk word =>
    exact verified_store (word.verified declares le settled context)
      (fun _ => place_hasKind declares le found) fun _ => trivial

theorem jump_allowed {target : BlockId} (inside : target ∈ around.targets) :
    (Terminator.jump target).Allowed around context :=
  ⟨trivial, by simpa [Terminator.successors] using inside⟩

theorem joined_verified {falls : Bool} {target : BlockId} (inside : target ∈ around.targets) :
    Code.Verified around context (joined falls target) := by
  cases falls with
  | true => exact ⟨jump_allowed inside, trivial⟩
  | false => trivial

/-- A test of a condition with the blocks for both outcomes. -/
theorem branch_verified {code : List Instr} {operand : Operand} {yes no : BlockId} {rest : Code}
    (test : AllAllowed around context code ∧ operand.HasKind around (behind context code) .truth)
    (insideYes : yes ∈ around.targets) (insideNo : no ∈ around.targets)
    (verified : ∀ context, Code.Verified around context rest) :
    Code.Verified around context (Code.ofInstrs code ++ .exit (.branch operand yes no) :: rest) := by
  refine .ofInstrs test.1 ⟨⟨test.2, ?_⟩, verified _⟩
  simp [Terminator.successors, insideYes, insideNo]

/-- Whether control may go where `break` and `continue` lead. -/
def TargetsInside (around : Surroundings) (targets : Option Targets) : Prop :=
  ∀ way ∈ targets, way.exit ∈ around.targets ∧ way.next ∈ around.targets

theorem targetsInside_some {exit next : BlockId} (exits : exit ∈ around.targets)
    (continues : next ∈ around.targets) : TargetsInside around (some ⟨exit, next⟩) := by
  rintro _ ⟨⟩
  exact ⟨exits, continues⟩

mutual

/-- The code of a statement is as the verifier asks, in any context, if control may go to its blocks
and to those that `break` and `continue` lead to. -/
theorem StmtCode.verified (declares : Declares around.module symbols) :
    ∀ {targets : Option Targets} {n n' k k' : Nat} {stmt : Scoped.Stmt} {code : Code} {falls : Bool},
    StmtCode around.slots targets n k stmt code falls n' k' →
      ∀ {inLoop : Bool} {count : Nat}, stmt.InScope symbols inLoop count →
      count + stmt.declares ≤ around.slots.length → TargetsInside around targets →
      Code.labels code ⊆ around.targets → ∀ context : Context, Code.Verified around context code
  | _, _, _, _, _, _, _, _, .declare declared, _, _, settled, enough, _, _, context =>
    declared.verified declares (Nat.le_of_add_right_le enough) settled.2 context
  | _, _, _, _, _, _, _, _, .assign assigned, _, _, settled, enough, _, _, context =>
    assigned.verified declares (Nat.le_of_add_right_le enough) settled.1 settled.2 context
  | _, _, _, _, _, _, _, _, .return word, _, _, settled, enough, _, _, context => by
    obtain ⟨first, known⟩ :=
      word.verified declares (Nat.le_of_add_right_le enough) settled context
    exact .ofInstrs first ⟨⟨known, by simp [Terminator.successors]⟩, trivial⟩
  | _, _, _, _, _, _, _, _, .expr computed, _, _, settled, enough, _, _, context => by
    obtain ⟨first, _⟩ := computed.verified declares (Nat.le_of_add_right_le enough) settled context
    rw [← List.append_nil (Code.ofInstrs _)]
    exact .ofInstrs first trivial
  | _, _, _, _, _, _, _, reached, .if both, _, _, settled, enough, targets, inside, context => by
    rw [Code.labels_append, List.append_subset, Code.labels, List.cons_subset] at inside
    obtain ⟨arms, merge, _⟩ := inside
    refine (both.verified declares settled.1 settled.2.1 settled.2.2 enough targets merge arms
      context).append fun _ => ⟨by decide, ?_⟩
    cases reached with
    | true => trivial
    | false => exact ⟨⟨trivial, by simp [Terminator.successors]⟩, trivial⟩
  | _, _, _, _, _, _, _, _, .while test repeated, _, _, settled, enough, _, inside, _ => by
    simp only [Code.labels, Code.labels_append, Code.labels_ofInstrs, labels_joined, List.nil_append,
      List.cons_subset, List.append_subset] at inside
    obtain ⟨head, body, inner, behind, _⟩ := inside
    have le := Nat.le_of_add_right_le enough
    refine ⟨jump_allowed head, by decide, branch_verified
      (test.verified declares le settled.1 []) body behind fun _ => ⟨by decide, ?_⟩⟩
    refine (repeated.verified declares settled.2 enough (targetsInside_some behind head) inner
      []).append fun _ => ?_
    exact (joined_verified head).append fun _ => ⟨by decide, trivial⟩
  | _, _, _, _, _, _, _, _, .for declared test repeated updated, _, count, settled, enough, _, inside,
      context => by
    simp only [Code.labels, Code.labels_append, Code.labels_ofInstrs, labels_joined, declared.labels,
      updated.labels, List.nil_append, List.cons_subset, List.append_subset] at inside
    obtain ⟨head, body, inner, again, behind, _⟩ := inside
    have total : count + (1 + _) ≤ around.slots.length := enough
    refine (declared.verified declares (by omega) settled.2.1 context).append fun _ => ?_
    refine ⟨jump_allowed head, by decide, branch_verified
      (test.verified declares (by omega) settled.2.2.1 []) body behind fun _ => ⟨by decide, ?_⟩⟩
    refine (repeated.verified declares settled.2.2.2.1 (by omega) (targetsInside_some behind again)
      inner []).append fun _ => ?_
    refine (joined_verified again).append fun _ => ⟨by decide, ?_⟩
    exact (updated.verified declares (by omega) settled.2.2.2.2.1 settled.2.2.2.2.2 []).append
      fun _ => ⟨jump_allowed head, by decide, trivial⟩
  | _, _, _, _, _, _, _, _, .break, _, _, _, _, targets, _, _ =>
    ⟨jump_allowed (targets _ rfl).1, trivial⟩
  | _, _, _, _, _, _, _, _, .continue, _, _, _, _, targets, _, _ =>
    ⟨jump_allowed (targets _ rfl).2, trivial⟩

theorem ArmsCode.verified (declares : Declares around.module symbols) :
    ∀ {targets : Option Targets} {merge : BlockId} {n n' k k' : Nat} {condition : Scoped.Expr}
      {body : List Scoped.Stmt} {tail : Scoped.Tail} {code : Code} {reached : Bool},
    ArmsCode around.slots targets merge n k condition body tail code reached n' k' →
      ∀ {inLoop : Bool} {count : Nat}, condition.InScope symbols count →
      Scoped.Stmt.AllInScope symbols inLoop count body →
      tail.InScope symbols inLoop (count + Scoped.Stmt.declaresAll body) →
      count + (Scoped.Stmt.declaresAll body + tail.declares) ≤ around.slots.length →
      TargetsInside around targets → merge ∈ around.targets →
      Code.labels code ⊆ around.targets → ∀ context : Context, Code.Verified around context code
  | _, _, _, _, _, _, _, _, _, _, _, .mk test first second, _, _, conditionSettled, bodySettled,
      tailSettled, enough, targets, merge, inside, context => by
    simp only [Code.labels, Code.labels_append, Code.labels_ofInstrs, labels_joined, List.nil_append,
      List.cons_subset, List.append_subset] at inside
    obtain ⟨yes, inner, no, others⟩ := inside
    have le := Nat.le_of_add_right_le enough
    refine branch_verified (test.verified declares le conditionSettled context) yes no
      fun _ => ⟨by decide, ?_⟩
    refine (first.verified declares bodySettled (by omega) targets inner []).append fun _ => ?_
    refine (joined_verified merge).append fun _ => ⟨by decide, ?_⟩
    exact second.verified declares tailSettled (by omega) targets merge others []

theorem TailCode.verified (declares : Declares around.module symbols) :
    ∀ {targets : Option Targets} {merge : BlockId} {n n' k k' : Nat} {tail : Scoped.Tail}
      {code : Code} {reached : Bool},
    TailCode around.slots targets merge n k tail code reached n' k' →
      ∀ {inLoop : Bool} {count : Nat}, tail.InScope symbols inLoop count →
      count + tail.declares ≤ around.slots.length →
      TargetsInside around targets → merge ∈ around.targets →
      Code.labels code ⊆ around.targets → ∀ context : Context, Code.Verified around context code
  | _, _, _, _, _, _, _, _, _, .none, _, _, _, _, _, merge, _, _ => ⟨jump_allowed merge, trivial⟩
  | _, _, _, _, _, _, _, _, _, .elseIf both, _, _, settled, enough, targets, merge, inside, context =>
    both.verified declares settled.1 settled.2.1 settled.2.2 enough targets merge inside context
  | _, _, _, _, _, _, _, _, _, .else inner, _, _, settled, enough, targets, merge, inside, context => by
    rw [Code.labels_append, List.append_subset] at inside
    exact (inner.verified declares settled enough targets inside.1 context).append
      fun _ => joined_verified merge

theorem StmtsCode.verified (declares : Declares around.module symbols) :
    ∀ {targets : Option Targets} {n n' k k' : Nat} {stmts : List Scoped.Stmt} {code : Code}
      {falls falls' : Bool},
    StmtsCode around.slots targets n k falls stmts code falls' n' k' →
      ∀ {inLoop : Bool} {count : Nat}, Scoped.Stmt.AllInScope symbols inLoop count stmts →
      count + Scoped.Stmt.declaresAll stmts ≤ around.slots.length → TargetsInside around targets →
      Code.labels code ⊆ around.targets → ∀ context : Context, Code.Verified around context code
  | _, _, _, _, _, _, _, _, _, .nil, _, _, _, _, _, _, _ => trivial
  | _, _, _, _, _, _, _, _, _, .cons first others, _, _, settled, enough, targets, inside, context => by
    have total : _ + (_ + _) ≤ around.slots.length := enough
    rw [Code.labels_append, List.append_subset] at inside
    exact (first.verified declares settled.1 (by omega) targets inside.1 context).append
      (others.verified declares settled.2 (by omega) targets inside.2)
  | _, _, _, _, _, _, _, _, _, .dead first others, _, _, settled, enough, targets, inside, _ => by
    have total : _ + (_ + _) ≤ around.slots.length := enough
    rw [Code.labels, Code.labels_append, List.cons_subset, List.append_subset] at inside
    refine ⟨by decide, ?_⟩
    exact (first.verified declares settled.1 (by omega) targets inside.2.1 []).append
      (others.verified declares settled.2 (by omega) targets inside.2.2)

end

end OliCompiler.Lower
