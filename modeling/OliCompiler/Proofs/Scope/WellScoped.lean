import OliCompiler.Proofs.Evaluation.Tree
import OliCompiler.Proofs.Scope.Resolution
import Mathlib.Data.List.Nodup

/-!
Well-scoped trees: locals are numbered without gaps in the order in which lowering meets their
declarations, a name is used only behind its declaration, and calls agree with the functions. Settling
the names of a program gives a well-scoped tree.
-/

namespace OliCompiler

namespace Scoped

/-- Whether a variable is one of the first `count` locals or a global. -/
def Var.InScope (symbols : Symbols) (count : Nat) : Var → Prop
  | .local slot => slot < count
  | .global name => name ∈ symbols.globals

mutual

def Expr.InScope (symbols : Symbols) (count : Nat) : Expr → Prop
  | .int _ => True
  | .var place => place.InScope symbols count
  | .print value => value.InScope symbols count
  | .call callee args =>
    (callee, args.length) ∈ symbols.functions ∧ Expr.AllInScope symbols count args
  | .binary _ left right => left.InScope symbols count ∧ right.InScope symbols count

def Expr.AllInScope (symbols : Symbols) (count : Nat) : List Expr → Prop
  | [] => True
  | expr :: exprs => expr.InScope symbols count ∧ Expr.AllInScope symbols count exprs

end

mutual

/-- How many locals a statement declares. -/
def Stmt.declares : Stmt → Nat
  | .declare _ _ => 1
  | .if _ body tail => Stmt.declaresAll body + tail.declares
  | .while _ body => Stmt.declaresAll body
  | .for _ _ _ _ _ body => 1 + Stmt.declaresAll body
  | .assign _ _ | .return _ | .expr _ | .break | .continue => 0

def Tail.declares : Tail → Nat
  | .none => 0
  | .elseIf _ body tail => Stmt.declaresAll body + tail.declares
  | .else body => Stmt.declaresAll body

def Stmt.declaresAll : List Stmt → Nat
  | [] => 0
  | stmt :: stmts => stmt.declares + Stmt.declaresAll stmts

end

mutual

/-- Whether a statement is well scoped where `count` locals are declared. -/
def Stmt.InScope (symbols : Symbols) (inLoop : Bool) (count : Nat) : Stmt → Prop
  | .declare slot value => slot = count ∧ value.InScope symbols count
  | .assign var value => var.InScope symbols count ∧ value.InScope symbols count
  | .return value => value.InScope symbols count
  | .expr value => value.InScope symbols count
  | .if condition body tail =>
    condition.InScope symbols count ∧ Stmt.AllInScope symbols inLoop count body ∧
      tail.InScope symbols inLoop (count + Stmt.declaresAll body)
  | .while condition body =>
    condition.InScope symbols count ∧ Stmt.AllInScope symbols true count body
  | .for slot init condition var update body =>
    slot = count ∧ init.InScope symbols count ∧ condition.InScope symbols (count + 1) ∧
      Stmt.AllInScope symbols true (count + 1) body ∧
      var.InScope symbols (count + 1 + Stmt.declaresAll body) ∧
      update.InScope symbols (count + 1 + Stmt.declaresAll body)
  | .break => inLoop = true
  | .continue => inLoop = true

def Tail.InScope (symbols : Symbols) (inLoop : Bool) (count : Nat) : Tail → Prop
  | .none => True
  | .elseIf condition body tail =>
    condition.InScope symbols count ∧ Stmt.AllInScope symbols inLoop count body ∧
      tail.InScope symbols inLoop (count + Stmt.declaresAll body)
  | .else body => Stmt.AllInScope symbols inLoop count body

def Stmt.AllInScope (symbols : Symbols) (inLoop : Bool) (count : Nat) : List Stmt → Prop
  | [] => True
  | stmt :: stmts =>
    stmt.InScope symbols inLoop count ∧
      Stmt.AllInScope symbols inLoop (count + stmt.declares) stmts

end

/-- The names that a program declares. -/
def Program.symbols (program : Program) : Symbols where
  functions := program.functions.map fun function => (function.name, function.arity)
  globals := program.globals.map Prod.fst

structure Program.WellScoped (program : Program) : Prop where
  names : (program.functions.map Function.name).Nodup
  apart : ∀ function ∈ program.functions, isRuntimeSymbol function.name = false
  globals : ∀ global ∈ program.globals, global.2.InScope program.symbols 0
  main : Stmt.AllInScope program.symbols false 0 program.main
  functions : ∀ function ∈ program.functions,
    Stmt.AllInScope program.symbols false function.arity function.body

end Scoped

variable {symbols : Symbols} {locals after : Locals} {inLoop : Bool}

theorem resolveVar_inScope {name : Ident} {var : Scoped.Var}
    (resolved : resolveVar symbols locals name = .ok var) : var.InScope symbols locals.length := by
  rcases resolveVar_eq_ok.mp resolved with ⟨slot, found, rfl⟩ | ⟨_, declared, rfl⟩
  · exact (List.idxOf?_eq_some_iff.mp found).choose
  · exact declared

mutual

theorem resolveExpr_inScope : ∀ {expr : Expr} {settled : Scoped.Expr},
    resolveExpr symbols locals expr = .ok settled → settled.InScope symbols locals.length
  | .int _ _, _, resolved => by
    cases resolved
    trivial
  | .var _, _, resolved => by
    obtain ⟨var, found, rfl⟩ := resolveExpr_var.mp resolved
    exact resolveVar_inScope found
  | .call callee args _, _, resolved => by
    rcases resolveExpr_call.mp resolved with
      ⟨_, value, argsResolved, rfl⟩ | ⟨_, found, values, argsResolved, rfl⟩
    · exact (resolveArgs_inScope argsResolved).1
    · refine ⟨?_, resolveArgs_inScope argsResolved⟩
      obtain ⟨before, behind, listed, _⟩ := List.lookup_eq_some_iff.mp found
      simp [listed, resolveArgs_length argsResolved]
  | .binary _ _ _, _, resolved => by
    obtain ⟨a, left, b, right, rfl⟩ := resolveExpr_binary.mp resolved
    exact ⟨resolveExpr_inScope left, resolveExpr_inScope right⟩

theorem resolveArgs_inScope : ∀ {args : List Expr} {settled : List Scoped.Expr},
    resolveArgs symbols locals args = .ok settled →
      Scoped.Expr.AllInScope symbols locals.length settled
  | [], _, resolved => by
    cases resolved
    trivial
  | _ :: _, _, resolved => by
    obtain ⟨first, one, rest, others, rfl⟩ := resolveArgs_cons.mp resolved
    exact ⟨resolveExpr_inScope one, resolveArgs_inScope others⟩

end

mutual

/-- Settling a statement adds the locals that it declares, in order. -/
theorem resolveStmt_after : ∀ {inLoop : Bool} {locals after : Locals} {stmt : Stmt}
    {settled : Scoped.Stmt},
    resolveStmt symbols inLoop locals stmt = .ok (settled, after) → after = locals ++ stmt.declared
  | _, _, _, .declare _, _, resolved => by
    obtain ⟨_, _, declared, _⟩ := resolveStmt_declare.mp resolved
    exact (declareLocal_eq_ok.mp declared).2.2.symm
  | _, _, _, .assign _, _, resolved => by
    obtain ⟨_, _, _, _, _, rfl⟩ := resolveStmt_assign.mp resolved
    simp [Stmt.declared]
  | _, _, _, .return _, _, resolved => by
    obtain ⟨_, _, _, rfl⟩ := resolveStmt_return.mp resolved
    simp [Stmt.declared]
  | _, _, _, .expr _, _, resolved => by
    obtain ⟨_, _, _, rfl⟩ := resolveStmt_expr.mp resolved
    simp [Stmt.declared]
  | _, _, _, .if _ _ _, _, resolved => by
    obtain ⟨_, _, _, _, body, _, _, tail, _, rfl⟩ := resolveStmt_if.mp resolved
    simp [Stmt.declared, resolveTail_after tail, resolveStmts_after body]
  | _, _, _, .while _ _, _, resolved => by
    obtain ⟨_, _, _, _, body, _, rfl⟩ := resolveStmt_while.mp resolved
    simp [Stmt.declared, resolveStmts_after body]
  | _, _, _, .for _ _ _ _, _, resolved => by
    obtain ⟨_, _, _, declared, _, _, _, _, body, _, _, _, _, _, rfl⟩ := resolveStmt_for.mp resolved
    obtain ⟨_, _, rfl⟩ := declareLocal_eq_ok.mp declared
    simp [Stmt.declared, resolveStmts_after body]
  | _, _, _, .break _, _, resolved => by
    obtain ⟨_, _, rfl⟩ := resolveStmt_break.mp resolved
    simp [Stmt.declared]
  | _, _, _, .continue _, _, resolved => by
    obtain ⟨_, _, rfl⟩ := resolveStmt_continue.mp resolved
    simp [Stmt.declared]

theorem resolveTail_after : ∀ {inLoop : Bool} {locals after : Locals} {tail : Tail}
    {settled : Scoped.Tail},
    resolveTail symbols inLoop locals tail = .ok (settled, after) → after = locals ++ tail.declared
  | _, _, _, .none, _, resolved => by
    obtain ⟨_, rfl⟩ := resolveTail_none.mp resolved
    simp [Tail.declared]
  | _, _, _, .elseIf _ _ _, _, resolved => by
    obtain ⟨_, _, _, _, body, _, _, tail, _, rfl⟩ := resolveTail_elseIf.mp resolved
    simp [Tail.declared, resolveTail_after tail, resolveStmts_after body]
  | _, _, _, .else _, _, resolved => by
    obtain ⟨_, _, body, _, rfl⟩ := resolveTail_else.mp resolved
    simp [Tail.declared, resolveStmts_after body]

theorem resolveStmts_after : ∀ {inLoop : Bool} {locals after : Locals} {stmts : List Stmt}
    {settled : List Scoped.Stmt},
    resolveStmts symbols inLoop locals stmts = .ok (settled, after) →
      after = locals ++ Stmt.declaredAll stmts
  | _, _, _, [], _, resolved => by
    obtain ⟨_, rfl⟩ := resolveStmts_nil.mp resolved
    simp [Stmt.declaredAll]
  | _, _, _, _ :: _, _, resolved => by
    obtain ⟨_, _, first, _, _, rest, _, rfl⟩ := resolveStmts_cons.mp resolved
    simp [Stmt.declaredAll, resolveStmt_after first, resolveStmts_after rest]

end

mutual

theorem resolveStmt_declares : ∀ {inLoop : Bool} {locals after : Locals} {stmt : Stmt}
    {settled : Scoped.Stmt},
    resolveStmt symbols inLoop locals stmt = .ok (settled, after) →
      settled.declares = stmt.declared.length
  | _, _, _, .declare _, _, resolved => by
    obtain ⟨_, _, _, rfl⟩ := resolveStmt_declare.mp resolved
    rfl
  | _, _, _, .assign _, _, resolved => by
    obtain ⟨_, _, _, _, rfl, _⟩ := resolveStmt_assign.mp resolved
    rfl
  | _, _, _, .return _, _, resolved => by
    obtain ⟨_, _, rfl, _⟩ := resolveStmt_return.mp resolved
    rfl
  | _, _, _, .expr _, _, resolved => by
    obtain ⟨_, _, rfl, _⟩ := resolveStmt_expr.mp resolved
    rfl
  | _, _, _, .if _ _ _, _, resolved => by
    obtain ⟨_, _, _, _, body, _, _, tail, rfl, _⟩ := resolveStmt_if.mp resolved
    simp [Stmt.declared, Scoped.Stmt.declares, resolveTail_declares tail, resolveStmts_declares body]
  | _, _, _, .while _ _, _, resolved => by
    obtain ⟨_, _, _, _, body, rfl, _⟩ := resolveStmt_while.mp resolved
    simp [Stmt.declared, Scoped.Stmt.declares, resolveStmts_declares body]
  | _, _, _, .for _ _ _ _, _, resolved => by
    obtain ⟨_, _, _, _, _, _, _, _, body, _, _, _, _, rfl, _⟩ := resolveStmt_for.mp resolved
    simp [Stmt.declared, Scoped.Stmt.declares, resolveStmts_declares body, Nat.add_comm]
  | _, _, _, .break _, _, resolved => by
    obtain ⟨_, rfl, _⟩ := resolveStmt_break.mp resolved
    rfl
  | _, _, _, .continue _, _, resolved => by
    obtain ⟨_, rfl, _⟩ := resolveStmt_continue.mp resolved
    rfl

theorem resolveTail_declares : ∀ {inLoop : Bool} {locals after : Locals} {tail : Tail}
    {settled : Scoped.Tail},
    resolveTail symbols inLoop locals tail = .ok (settled, after) →
      settled.declares = tail.declared.length
  | _, _, _, .none, _, resolved => by
    obtain ⟨rfl, _⟩ := resolveTail_none.mp resolved
    rfl
  | _, _, _, .elseIf _ _ _, _, resolved => by
    obtain ⟨_, _, _, _, body, _, _, tail, rfl, _⟩ := resolveTail_elseIf.mp resolved
    simp [Tail.declared, Scoped.Tail.declares, resolveTail_declares tail, resolveStmts_declares body]
  | _, _, _, .else _, _, resolved => by
    obtain ⟨_, _, body, rfl, _⟩ := resolveTail_else.mp resolved
    simp [Tail.declared, Scoped.Tail.declares, resolveStmts_declares body]

theorem resolveStmts_declares : ∀ {inLoop : Bool} {locals after : Locals} {stmts : List Stmt}
    {settled : List Scoped.Stmt},
    resolveStmts symbols inLoop locals stmts = .ok (settled, after) →
      Scoped.Stmt.declaresAll settled = (Stmt.declaredAll stmts).length
  | _, _, _, [], _, resolved => by
    obtain ⟨rfl, _⟩ := resolveStmts_nil.mp resolved
    rfl
  | _, _, _, _ :: _, _, resolved => by
    obtain ⟨_, _, first, _, _, rest, rfl, _⟩ := resolveStmts_cons.mp resolved
    simp [Stmt.declaredAll, Scoped.Stmt.declaresAll, resolveStmt_declares first,
      resolveStmts_declares rest]

end

/-- The number of locals behind settled statements. -/
theorem resolveStmts_length {stmts : List Stmt} {settled : List Scoped.Stmt}
    (resolved : resolveStmts symbols inLoop locals stmts = .ok (settled, after)) :
    after.length = locals.length + Scoped.Stmt.declaresAll settled := by
  simp [resolveStmts_after resolved, resolveStmts_declares resolved]

theorem declareLocal_length {name : Ident} (declared : declareLocal locals name = .ok after) :
    after.length = locals.length + 1 := by
  simp [← (declareLocal_eq_ok.mp declared).2.2]

mutual

theorem resolveStmt_inScope : ∀ {inLoop : Bool} {locals after : Locals} {stmt : Stmt}
    {settled : Scoped.Stmt},
    resolveStmt symbols inLoop locals stmt = .ok (settled, after) →
      settled.InScope symbols inLoop locals.length
  | _, _, _, .declare _, _, resolved => by
    obtain ⟨_, value, _, rfl⟩ := resolveStmt_declare.mp resolved
    exact ⟨rfl, resolveExpr_inScope value⟩
  | _, _, _, .assign _, _, resolved => by
    obtain ⟨_, var, _, value, rfl, _⟩ := resolveStmt_assign.mp resolved
    exact ⟨resolveVar_inScope var, resolveExpr_inScope value⟩
  | _, _, _, .return _, _, resolved => by
    obtain ⟨_, value, rfl, _⟩ := resolveStmt_return.mp resolved
    exact resolveExpr_inScope value
  | _, _, _, .expr _, _, resolved => by
    obtain ⟨_, value, rfl, _⟩ := resolveStmt_expr.mp resolved
    exact resolveExpr_inScope value
  | _, _, _, .if _ _ _, _, resolved => by
    obtain ⟨_, condition, _, _, body, _, _, tail, rfl, _⟩ := resolveStmt_if.mp resolved
    refine ⟨resolveExpr_inScope condition, resolveStmts_inScope body, ?_⟩
    exact resolveStmts_length body ▸ resolveTail_inScope tail
  | _, _, _, .while _ _, _, resolved => by
    obtain ⟨_, condition, _, _, body, rfl, _⟩ := resolveStmt_while.mp resolved
    exact ⟨resolveExpr_inScope condition, resolveStmts_inScope body⟩
  | _, _, _, .for _ _ _ _, _, resolved => by
    obtain ⟨_, init, _, declared, _, condition, _, _, body, _, var, _, update, rfl, _⟩ :=
      resolveStmt_for.mp resolved
    have inside := declareLocal_length declared
    have behind := resolveStmts_length body
    rw [inside] at behind
    exact ⟨rfl, resolveExpr_inScope init, inside ▸ resolveExpr_inScope condition,
      inside ▸ resolveStmts_inScope body, behind ▸ resolveVar_inScope var,
      behind ▸ resolveExpr_inScope update⟩
  | _, _, _, .break _, _, resolved => by
    obtain ⟨inLoop, rfl, _⟩ := resolveStmt_break.mp resolved
    exact inLoop
  | _, _, _, .continue _, _, resolved => by
    obtain ⟨inLoop, rfl, _⟩ := resolveStmt_continue.mp resolved
    exact inLoop

theorem resolveTail_inScope : ∀ {inLoop : Bool} {locals after : Locals} {tail : Tail}
    {settled : Scoped.Tail},
    resolveTail symbols inLoop locals tail = .ok (settled, after) →
      settled.InScope symbols inLoop locals.length
  | _, _, _, .none, _, resolved => by
    obtain ⟨rfl, _⟩ := resolveTail_none.mp resolved
    trivial
  | _, _, _, .elseIf _ _ _, _, resolved => by
    obtain ⟨_, condition, _, _, body, _, _, tail, rfl, _⟩ := resolveTail_elseIf.mp resolved
    refine ⟨resolveExpr_inScope condition, resolveStmts_inScope body, ?_⟩
    exact resolveStmts_length body ▸ resolveTail_inScope tail
  | _, _, _, .else _, _, resolved => by
    obtain ⟨_, _, body, rfl, _⟩ := resolveTail_else.mp resolved
    exact resolveStmts_inScope body

theorem resolveStmts_inScope : ∀ {inLoop : Bool} {locals after : Locals} {stmts : List Stmt}
    {settled : List Scoped.Stmt},
    resolveStmts symbols inLoop locals stmts = .ok (settled, after) →
      Scoped.Stmt.AllInScope symbols inLoop locals.length settled
  | _, _, _, [], _, resolved => by
    obtain ⟨rfl, _⟩ := resolveStmts_nil.mp resolved
    trivial
  | _, _, _, _ :: _, _, resolved => by
    obtain ⟨_, middle, first, _, _, rest, rfl, _⟩ := resolveStmts_cons.mp resolved
    have count : middle.length = _ := congrArg List.length (resolveStmt_after first)
    rw [List.length_append, ← resolveStmt_declares first] at count
    exact ⟨resolveStmt_inScope first, count ▸ resolveStmts_inScope rest⟩

end

end OliCompiler
