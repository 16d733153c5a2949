import OliCompiler.Resolve
import Mathlib.Data.List.Basic

/-!
What the settling of names accepts, construct by construct. Each construct is settled exactly if its
parts are, each part with the locals declared before it.
-/

namespace OliCompiler

theorem bind_eq_ok {ε α β : Type} {result : Except ε α} {next : α → Except ε β} {value : β} :
    result >>= next = .ok value ↔ ∃ middle, result = .ok middle ∧ next middle = .ok value := by
  cases result with
  | error error => simp [bind, Except.bind]
  | ok middle => simp [bind, Except.bind]

theorem pure_eq_ok {ε α : Type} {value result : α} :
    (pure value : Except ε α) = .ok result ↔ value = result := by
  simp [pure, Except.pure]

variable {symbols : Symbols} {locals after : Locals} {inLoop : Bool}

attribute [local simp] resolveExpr resolveArgs resolveStmt resolveTail resolveStmts

theorem declareLocal_eq_ok {name : Ident} :
    declareLocal locals name = .ok after ↔
      isReserved name.name = false ∧ name.name ∉ locals ∧ locals ++ [name.name] = after := by
  unfold declareLocal
  by_cases reserved : isReserved name.name = true
  · simp [reserved]
  · by_cases present : name.name ∈ locals <;> simp [reserved, present]

theorem resolveVar_eq_ok {name : Ident} {var : Scoped.Var} :
    resolveVar symbols locals name = .ok var ↔
      (∃ slot, locals.idxOf? name.name = some slot ∧ .local slot = var) ∨
        name.name ∉ locals ∧ name.name ∈ symbols.globals ∧ .global name.name = var := by
  unfold resolveVar
  cases found : locals.idxOf? name.name with
  | some slot =>
    have member : name.name ∈ locals := by
      by_contra absent
      rw [List.idxOf?_eq_none_iff.mpr absent] at found
      cases found
    simp [member]
  | none =>
    have absent : name.name ∉ locals := List.idxOf?_eq_none_iff.mp found
    by_cases declared : name.name ∈ symbols.globals <;> simp [absent, declared]

theorem resolveExpr_var {name : Ident} {settled : Scoped.Expr} :
    resolveExpr symbols locals (.var name) = .ok settled ↔
      ∃ var, resolveVar symbols locals name = .ok var ∧ .var var = settled := by
  simp only [resolveExpr, bind_eq_ok, pure_eq_ok]

theorem resolveExpr_binary {op : BinaryOp} {left right : Expr} {settled : Scoped.Expr} :
    resolveExpr symbols locals (.binary op left right) = .ok settled ↔
      ∃ a, resolveExpr symbols locals left = .ok a ∧
        ∃ b, resolveExpr symbols locals right = .ok b ∧ .binary op a b = settled := by
  simp only [resolveExpr, bind_eq_ok, pure_eq_ok]

theorem resolveArgs_cons {arg : Expr} {args : List Expr} {settled : List Scoped.Expr} :
    resolveArgs symbols locals (arg :: args) = .ok settled ↔
      ∃ first, resolveExpr symbols locals arg = .ok first ∧
        ∃ rest, resolveArgs symbols locals args = .ok rest ∧ first :: rest = settled := by
  simp only [resolveArgs, bind_eq_ok, pure_eq_ok]

theorem resolveArgs_length {args : List Expr} {settled : List Scoped.Expr}
    (resolved : resolveArgs symbols locals args = .ok settled) : settled.length = args.length := by
  induction args generalizing settled with
  | nil =>
    cases resolved
    rfl
  | cons arg args ih =>
    obtain ⟨first, _, rest, restResolved, rfl⟩ := resolveArgs_cons.mp resolved
    simp [ih restResolved]

theorem checkArity_eq_ok {callee : Ident} {span : Span} {expected found : Nat} {done : Unit} :
    checkArity callee span expected found = .ok done ↔ found = expected := by
  unfold checkArity
  by_cases same : found = expected <;> simp [same]

/-- A call is one of the printer with one argument, or one of a function with as many arguments as it
has parameters. -/
theorem resolveExpr_call {callee : Ident} {args : List Expr} {span : Span} {settled : Scoped.Expr} :
    resolveExpr symbols locals (.call callee args span) = .ok settled ↔
      (callee.name = printName ∧
        ∃ value, resolveArgs symbols locals args = .ok [value] ∧ .print value = settled) ∨
      (callee.name ≠ printName ∧ symbols.functions.lookup callee.name = some args.length ∧
        ∃ values, resolveArgs symbols locals args = .ok values ∧
          .call callee.name values = settled) := by
  by_cases printer : callee.name = printName
  · simp only [resolveExpr, printer, if_true, bind_eq_ok, checkArity_eq_ok]
    constructor
    · intro settles
      rcases settles with ⟨_, _, values, resolved, same⟩
      split at same
      · rename_i value
        cases same
        exact .inl ⟨trivial, value, resolved, rfl⟩
      · cases same
    · rintro (⟨_, value, resolved, rfl⟩ | ⟨other, _⟩)
      · exact ⟨(), (resolveArgs_length resolved).symm, [value], resolved, rfl⟩
      · exact absurd rfl other
  · cases found : symbols.functions.lookup callee.name with
    | none => simp [resolveExpr, printer, found]
    | some arity =>
      simp only [resolveExpr, printer, if_false, found, bind_eq_ok, checkArity_eq_ok, pure_eq_ok,
        false_and, false_or, Option.some.injEq, ne_eq, not_false_eq_true, true_and]
      constructor
      · intro settles
        rcases settles with ⟨_, count, values⟩
        exact ⟨count.symm, values⟩
      · intro settles
        rcases settles with ⟨count, values⟩
        exact ⟨(), count.symm, values⟩

theorem resolveDeclaration_eq_ok {binding : Binding} {slot : Nat} {value : Scoped.Expr} :
    resolveDeclaration symbols locals binding = .ok (slot, value, after) ↔
      locals.length = slot ∧ resolveExpr symbols locals binding.value = .ok value ∧
        declareLocal locals binding.name = .ok after := by
  simp only [resolveDeclaration, bind_eq_ok, pure_eq_ok, Prod.mk.injEq]
  constructor
  · intro settles
    rcases settles with ⟨value, resolved, after, declared, rfl, rfl, rfl⟩
    exact ⟨rfl, resolved, declared⟩
  · intro settles
    rcases settles with ⟨rfl, resolved, declared⟩
    exact ⟨value, resolved, after, declared, rfl, rfl, rfl⟩

theorem resolveAssignment_eq_ok {binding : Binding} {var : Scoped.Var} {value : Scoped.Expr} :
    resolveAssignment symbols locals binding = .ok (var, value) ↔
      resolveVar symbols locals binding.name = .ok var ∧
        resolveExpr symbols locals binding.value = .ok value := by
  simp only [resolveAssignment, bind_eq_ok, pure_eq_ok, Prod.mk.injEq]
  constructor
  · intro settles
    rcases settles with ⟨var, found, value, resolved, rfl, rfl⟩
    exact ⟨found, resolved⟩
  · intro settles
    rcases settles with ⟨found, resolved⟩
    exact ⟨var, found, value, resolved, rfl, rfl⟩

section

variable {settled : Scoped.Stmt}

theorem resolveStmt_declare {binding : Binding} :
    resolveStmt symbols inLoop locals (.declare binding) = .ok (settled, after) ↔
      ∃ value, resolveExpr symbols locals binding.value = .ok value ∧
        declareLocal locals binding.name = .ok after ∧ .declare locals.length value = settled := by
  simp only [resolveStmt, bind_eq_ok, pure_eq_ok, Prod.exists, Prod.mk.injEq,
    resolveDeclaration_eq_ok]
  constructor
  · intro settles
    rcases settles with ⟨slot, value, after, ⟨rfl, resolved, declared⟩, rfl, rfl⟩
    exact ⟨value, resolved, declared, rfl⟩
  · intro settles
    rcases settles with ⟨value, resolved, declared, rfl⟩
    exact ⟨_, value, after, ⟨rfl, resolved, declared⟩, rfl, rfl⟩

theorem resolveStmt_assign {binding : Binding} :
    resolveStmt symbols inLoop locals (.assign binding) = .ok (settled, after) ↔
      ∃ var, resolveVar symbols locals binding.name = .ok var ∧
        ∃ value, resolveExpr symbols locals binding.value = .ok value ∧
          .assign var value = settled ∧ locals = after := by
  simp only [resolveStmt, bind_eq_ok, pure_eq_ok, Prod.exists, Prod.mk.injEq,
    resolveAssignment_eq_ok]
  constructor
  · intro settles
    rcases settles with ⟨var, value, ⟨found, resolved⟩, same⟩
    exact ⟨var, found, value, resolved, same⟩
  · intro settles
    rcases settles with ⟨var, found, value, resolved, same⟩
    exact ⟨var, value, ⟨found, resolved⟩, same⟩

theorem resolveStmt_return {value : Expr} :
    resolveStmt symbols inLoop locals (.return value) = .ok (settled, after) ↔
      ∃ result, resolveExpr symbols locals value = .ok result ∧
        .return result = settled ∧ locals = after := by
  simp only [resolveStmt, bind_eq_ok, pure_eq_ok, Prod.mk.injEq]

theorem resolveStmt_expr {value : Expr} :
    resolveStmt symbols inLoop locals (.expr value) = .ok (settled, after) ↔
      ∃ result, resolveExpr symbols locals value = .ok result ∧
        .expr result = settled ∧ locals = after := by
  simp only [resolveStmt, bind_eq_ok, pure_eq_ok, Prod.mk.injEq]

theorem resolveStmt_if {condition : Expr} {body : List Stmt} {tail : Tail} :
    resolveStmt symbols inLoop locals (.if condition body tail) = .ok (settled, after) ↔
      ∃ test, resolveExpr symbols locals condition = .ok test ∧
        ∃ inner middle, resolveStmts symbols inLoop locals body = .ok (inner, middle) ∧
          ∃ others behind, resolveTail symbols inLoop middle tail = .ok (others, behind) ∧
            .if test inner others = settled ∧ behind = after := by
  simp only [resolveStmt, bind_eq_ok, pure_eq_ok, Prod.exists, Prod.mk.injEq]

theorem resolveStmt_while {condition : Expr} {body : List Stmt} :
    resolveStmt symbols inLoop locals (.while condition body) = .ok (settled, after) ↔
      ∃ test, resolveExpr symbols locals condition = .ok test ∧
        ∃ inner behind, resolveStmts symbols true locals body = .ok (inner, behind) ∧
          .while test inner = settled ∧ behind = after := by
  simp only [resolveStmt, bind_eq_ok, pure_eq_ok, Prod.exists, Prod.mk.injEq]

/-- The parts of a loop are settled in this order: the declaration, the test, the body, the update. -/
theorem resolveStmt_for {init update : Binding} {condition : Expr} {body : List Stmt} :
    resolveStmt symbols inLoop locals (.for init condition update body) = .ok (settled, after) ↔
      ∃ first, resolveExpr symbols locals init.value = .ok first ∧
        ∃ inside, declareLocal locals init.name = .ok inside ∧
          ∃ test, resolveExpr symbols inside condition = .ok test ∧
            ∃ inner behind, resolveStmts symbols true inside body = .ok (inner, behind) ∧
              ∃ var, resolveVar symbols behind update.name = .ok var ∧
                ∃ next, resolveExpr symbols behind update.value = .ok next ∧
                  .for locals.length first test var next inner = settled ∧ behind = after := by
  simp only [resolveStmt, bind_eq_ok, pure_eq_ok, Prod.exists, Prod.mk.injEq,
    resolveDeclaration_eq_ok, resolveAssignment_eq_ok]
  constructor
  · intro settles
    rcases settles with ⟨_, first, inside, ⟨rfl, initial, declared⟩, test, tested, inner, behind,
      bodied, var, next, ⟨found, updated⟩, same⟩
    exact ⟨first, initial, inside, declared, test, tested, inner, behind, bodied, var, found, next,
      updated, same⟩
  · intro settles
    rcases settles with ⟨first, initial, inside, declared, test, tested, inner, behind, bodied,
      var, found, next, updated, same⟩
    exact ⟨_, first, inside, ⟨rfl, initial, declared⟩, test, tested, inner, behind, bodied, var, next,
      ⟨found, updated⟩, same⟩

theorem resolveStmt_break {span : Span} :
    resolveStmt symbols inLoop locals (.break span) = .ok (settled, after) ↔
      inLoop = true ∧ .break = settled ∧ locals = after := by
  cases inLoop <;> simp [resolveStmt]

theorem resolveStmt_continue {span : Span} :
    resolveStmt symbols inLoop locals (.continue span) = .ok (settled, after) ↔
      inLoop = true ∧ .continue = settled ∧ locals = after := by
  cases inLoop <;> simp [resolveStmt]

end

section

variable {settled : Scoped.Tail}

theorem resolveTail_none :
    resolveTail symbols inLoop locals .none = .ok (settled, after) ↔
      .none = settled ∧ locals = after := by
  simp only [resolveTail, Except.ok.injEq, Prod.mk.injEq]

theorem resolveTail_elseIf {condition : Expr} {body : List Stmt} {tail : Tail} :
    resolveTail symbols inLoop locals (.elseIf condition body tail) = .ok (settled, after) ↔
      ∃ test, resolveExpr symbols locals condition = .ok test ∧
        ∃ inner middle, resolveStmts symbols inLoop locals body = .ok (inner, middle) ∧
          ∃ others behind, resolveTail symbols inLoop middle tail = .ok (others, behind) ∧
            .elseIf test inner others = settled ∧ behind = after := by
  simp only [resolveTail, bind_eq_ok, pure_eq_ok, Prod.exists, Prod.mk.injEq]

theorem resolveTail_else {body : List Stmt} :
    resolveTail symbols inLoop locals (.else body) = .ok (settled, after) ↔
      ∃ inner behind, resolveStmts symbols inLoop locals body = .ok (inner, behind) ∧
        .else inner = settled ∧ behind = after := by
  simp only [resolveTail, bind_eq_ok, pure_eq_ok, Prod.exists, Prod.mk.injEq]

end

section

variable {settled : List Scoped.Stmt}

theorem resolveStmts_nil :
    resolveStmts symbols inLoop locals [] = .ok (settled, after) ↔
      [] = settled ∧ locals = after := by
  simp only [resolveStmts, Except.ok.injEq, Prod.mk.injEq]

theorem resolveStmts_cons {stmt : Stmt} {stmts : List Stmt} :
    resolveStmts symbols inLoop locals (stmt :: stmts) = .ok (settled, after) ↔
      ∃ first middle, resolveStmt symbols inLoop locals stmt = .ok (first, middle) ∧
        ∃ rest behind, resolveStmts symbols inLoop middle stmts = .ok (rest, behind) ∧
          first :: rest = settled ∧ behind = after := by
  simp only [resolveStmts, bind_eq_ok, pure_eq_ok, Prod.exists, Prod.mk.injEq]

end

end OliCompiler
