import OliCompiler.Proofs.Printing.Source
import OliCompiler.Resolve
import Mathlib.Tactic.SplitIfs

/-!
Where names stand in a source does not matter to their settling: a tree with nothing known of places is
settled to the same tree, or refused with the same fault.
-/

namespace OliCompiler

/-- The fault with nothing known of where it stands. -/
def LowerError.bare : LowerError → LowerError
  | undefinedVariable name _ => undefinedVariable name default
  | undefinedFunction name _ => undefinedFunction name default
  | arityMismatch name expected found _ => arityMismatch name expected found default
  | alreadyDeclared name _ => alreadyDeclared name default
  | reservedName name _ => reservedName name default
  | missingMain => missingMain
  | duplicateFunction name _ => duplicateFunction name default
  | breakOutsideLoop _ => breakOutsideLoop default
  | continueOutsideLoop _ => continueOutsideLoop default
  | symbolClash name _ => symbolClash name default
  | unterminatedBlock function block => unterminatedBlock function block

section

variable {ε ε' α β : Type} (change : ε → ε')

theorem mapError_pure (value : α) : (pure value : Except ε α).mapError change = pure value := rfl

theorem mapError_bind (result : Except ε α) (next : α → Except ε β) :
    (result >>= next).mapError change =
      result.mapError change >>= fun value => (next value).mapError change := by
  cases result <;> rfl

theorem mapError_mapM (settle : α → Except ε β) (items : List α) :
    (items.mapM settle).mapError change = items.mapM fun item => (settle item).mapError change := by
  induction items with
  | nil => rfl
  | cons item items ih => simp only [List.mapM_cons, mapError_bind, mapError_pure, ih]

end

@[simp]
theorem Ident.bare_name (name : Ident) : name.bare.name = name.name := rfl

@[simp]
theorem Expr.length_bareAll (exprs : List Expr) : (Expr.bareAll exprs).length = exprs.length := by
  induction exprs with
  | nil => rfl
  | cons expr exprs ih => rw [Expr.bareAll, List.length_cons, List.length_cons, ih]

namespace Function

variable (function : Function)

theorem bare_name : function.bare.name = function.name.bare := rfl

theorem bare_params : function.bare.params = function.params.map Ident.bare := rfl

theorem bare_body : function.bare.body = Stmt.bareAll function.body := rfl

theorem bare_arity : function.bare.arity = function.arity := List.length_map Ident.bare

end Function

section

variable {symbols : Symbols} {locals : Locals}

theorem declareLocal_bare (name : Ident) :
    declareLocal locals name.bare = (declareLocal locals name).mapError LowerError.bare := by
  unfold declareLocal
  rw [Ident.bare_name]
  split_ifs <;> rfl

theorem resolveVar_bare (name : Ident) :
    resolveVar symbols locals name.bare =
      (resolveVar symbols locals name).mapError LowerError.bare := by
  unfold resolveVar
  rw [Ident.bare_name]
  cases locals.idxOf? name.name with
  | some slot => rfl
  | none =>
    dsimp only
    split_ifs <;> rfl

theorem checkArity_bare (callee : Ident) (span : Span) (expected found : Nat) :
    checkArity callee.bare default expected found =
      (checkArity callee span expected found).mapError LowerError.bare := by
  unfold checkArity
  split_ifs <;> rfl

mutual

theorem resolveExpr_bare : ∀ expr : Expr,
    resolveExpr symbols locals expr.bare =
      (resolveExpr symbols locals expr).mapError LowerError.bare
  | .int _ _ => rfl
  | .var name => by
    simp only [Expr.bare, resolveExpr, resolveVar_bare, mapError_bind, mapError_pure]
  | .call callee args span => by
    unfold Expr.bare resolveExpr
    rw [Ident.bare_name, Expr.length_bareAll]
    by_cases printer : callee.name = printName
    · rw [if_pos printer, if_pos printer, checkArity_bare callee span, resolveArgs_bare args]
      cases checkArity callee span 1 args.length with
      | error error => rfl
      | ok done =>
        cases resolveArgs symbols locals args with
        | error error => rfl
        | ok values => rcases values with _ | ⟨value, _ | ⟨other, values⟩⟩ <;> rfl
    · simp only [if_neg printer]
      cases symbols.functions.lookup callee.name with
      | none => rfl
      | some arity =>
        simp only [checkArity_bare callee span, resolveArgs_bare args, mapError_bind, mapError_pure]
  | .binary op left right => by
    simp only [Expr.bare, resolveExpr, resolveExpr_bare left, resolveExpr_bare right, mapError_bind,
      mapError_pure]

theorem resolveArgs_bare : ∀ args : List Expr,
    resolveArgs symbols locals (Expr.bareAll args) =
      (resolveArgs symbols locals args).mapError LowerError.bare
  | [] => rfl
  | arg :: args => by
    simp only [Expr.bareAll, resolveArgs, resolveExpr_bare arg, resolveArgs_bare args, mapError_bind,
      mapError_pure]

end

theorem resolveDeclaration_bare (binding : Binding) :
    resolveDeclaration symbols locals binding.bare =
      (resolveDeclaration symbols locals binding).mapError LowerError.bare := by
  simp only [resolveDeclaration, Binding.bare, resolveExpr_bare, declareLocal_bare, mapError_bind,
    mapError_pure]

theorem resolveAssignment_bare (binding : Binding) :
    resolveAssignment symbols locals binding.bare =
      (resolveAssignment symbols locals binding).mapError LowerError.bare := by
  simp only [resolveAssignment, Binding.bare, resolveExpr_bare, resolveVar_bare, mapError_bind,
    mapError_pure]

end

section

variable {symbols : Symbols}

mutual

theorem resolveStmt_bare : ∀ (stmt : Stmt) (inLoop : Bool) (locals : Locals),
    resolveStmt symbols inLoop locals stmt.bare =
      (resolveStmt symbols inLoop locals stmt).mapError LowerError.bare
  | .declare binding, _, _ => by
    simp only [Stmt.bare, resolveStmt, resolveDeclaration_bare, mapError_bind, mapError_pure]
  | .assign binding, _, _ => by
    simp only [Stmt.bare, resolveStmt, resolveAssignment_bare, mapError_bind, mapError_pure]
  | .return value, _, _ | .expr value, _, _ => by
    simp only [Stmt.bare, resolveStmt, resolveExpr_bare, mapError_bind, mapError_pure]
  | .if condition body tail, _, _ => by
    simp only [Stmt.bare, resolveStmt, resolveExpr_bare, resolveStmts_bare body, resolveTail_bare tail,
      mapError_bind, mapError_pure]
  | .while condition body, _, _ => by
    simp only [Stmt.bare, resolveStmt, resolveExpr_bare, resolveStmts_bare body, mapError_bind,
      mapError_pure]
  | .for init condition update body, _, _ => by
    simp only [Stmt.bare, resolveStmt, resolveDeclaration_bare, resolveExpr_bare,
      resolveStmts_bare body, resolveAssignment_bare, mapError_bind, mapError_pure]
  | .break _, inLoop, _ | .continue _, inLoop, _ => by cases inLoop <;> rfl

theorem resolveTail_bare : ∀ (tail : Tail) (inLoop : Bool) (locals : Locals),
    resolveTail symbols inLoop locals tail.bare =
      (resolveTail symbols inLoop locals tail).mapError LowerError.bare
  | .none, _, _ => rfl
  | .elseIf condition body tail, _, _ => by
    simp only [Tail.bare, resolveTail, resolveExpr_bare, resolveStmts_bare body, resolveTail_bare tail,
      mapError_bind, mapError_pure]
  | .else body, _, _ => by
    simp only [Tail.bare, resolveTail, resolveStmts_bare body, mapError_bind, mapError_pure]

theorem resolveStmts_bare : ∀ (stmts : List Stmt) (inLoop : Bool) (locals : Locals),
    resolveStmts symbols inLoop locals (Stmt.bareAll stmts) =
      (resolveStmts symbols inLoop locals stmts).mapError LowerError.bare
  | [], _, _ => rfl
  | stmt :: stmts, _, _ => by
    simp only [Stmt.bareAll, resolveStmts, resolveStmt_bare stmt, resolveStmts_bare stmts,
      mapError_bind, mapError_pure]

end

theorem declareParams_bare (locals : Locals) (params : List Ident) :
    declareParams locals (params.map Ident.bare) =
      (declareParams locals params).mapError LowerError.bare := by
  induction params generalizing locals with
  | nil => rfl
  | cons param params ih =>
    simp only [List.map_cons, declareParams, declareLocal_bare, ih, mapError_bind]

theorem resolveFunction_bare (function : Function) :
    resolveFunction symbols function.bare =
      (resolveFunction symbols function).mapError LowerError.bare := by
  simp only [resolveFunction, Function.bare_arity, Function.bare_name, Function.bare_params,
    Function.bare_body, declareParams_bare, resolveStmts_bare, mapError_bind, mapError_pure,
    Ident.bare_name]

theorem resolveGlobal_bare (binding : Binding) :
    resolveGlobal symbols binding.bare =
      (resolveGlobal symbols binding).mapError LowerError.bare := by
  simp only [resolveGlobal, Binding.bare, resolveExpr_bare, mapError_bind, mapError_pure,
    Ident.bare_name]

end

theorem declareFunctions_bare (known : List (String × Nat)) (functions : List Function) :
    declareFunctions known (functions.map Function.bare) =
      (declareFunctions known functions).mapError LowerError.bare := by
  induction functions generalizing known with
  | nil => rfl
  | cons function functions ih =>
    rw [List.map_cons, declareFunctions, declareFunctions, Function.bare_arity, Function.bare_name,
      Ident.bare_name]
    split_ifs
    · rfl
    · rfl
    · rfl
    · exact ih _

theorem declareGlobals_bare (functions : List (String × Nat)) (known : List String)
    (bindings : List Binding) :
    declareGlobals functions known (bindings.map Binding.bare) =
      (declareGlobals functions known bindings).mapError LowerError.bare := by
  induction bindings generalizing known with
  | nil => rfl
  | cons binding bindings ih =>
    have name : binding.bare.name.name = binding.name.name := rfl
    rw [List.map_cons, declareGlobals, declareGlobals, name]
    split_ifs
    · rfl
    · rfl
    · rfl
    · exact ih _

/-- A program without places is settled to the same tree, or refused with the same fault. -/
theorem resolve_bare (program : Program) :
    resolve program.bare = (resolve program).mapError LowerError.bare := by
  obtain ⟨functions, globals, main⟩ := program
  cases main with
  | none => rfl
  | some main =>
    simp only [resolve, Program.bare, Option.map_some, List.mapM_map, Function.comp_def,
      declareFunctions_bare, declareGlobals_bare, resolveGlobal_bare, Function.bare_body,
      resolveStmts_bare, resolveFunction_bare, mapError_bind, mapError_mapM, mapError_pure]

end OliCompiler
