import OliCompiler.Proofs.Scope.Acceptance

/-!
The order of functions means nothing for names: the settling looks functions up by name, so a program
whose functions stand in another order is settled to the same tree in that order.
-/

namespace OliCompiler

/-- Whether all names mean the same in two tables. -/
structure Symbols.Agrees (symbols symbols' : Symbols) : Prop where
  functions : ∀ name, symbols.functions.lookup name = symbols'.functions.lookup name
  globals : symbols.globals = symbols'.globals

section

variable {symbols symbols' : Symbols} {locals : Locals}

theorem resolveVar_congr (agrees : symbols.Agrees symbols') (name : Ident) :
    resolveVar symbols locals name = resolveVar symbols' locals name := by
  simp only [resolveVar, agrees.globals]

mutual

theorem resolveExpr_congr (agrees : symbols.Agrees symbols') : ∀ expr : Expr,
    resolveExpr symbols locals expr = resolveExpr symbols' locals expr
  | .int _ _ => rfl
  | .var name => by simp only [resolveExpr, resolveVar_congr agrees name]
  | .call callee args span => by
    simp only [resolveExpr, resolveArgs_congr agrees args, agrees.functions]
  | .binary op left right => by
    simp only [resolveExpr, resolveExpr_congr agrees left, resolveExpr_congr agrees right]

theorem resolveArgs_congr (agrees : symbols.Agrees symbols') : ∀ args : List Expr,
    resolveArgs symbols locals args = resolveArgs symbols' locals args
  | [] => rfl
  | arg :: args => by
    simp only [resolveArgs, resolveExpr_congr agrees arg, resolveArgs_congr agrees args]

end

theorem resolveDeclaration_congr (agrees : symbols.Agrees symbols') (binding : Binding) :
    resolveDeclaration symbols locals binding = resolveDeclaration symbols' locals binding := by
  simp only [resolveDeclaration, resolveExpr_congr agrees]

theorem resolveAssignment_congr (agrees : symbols.Agrees symbols') (binding : Binding) :
    resolveAssignment symbols locals binding = resolveAssignment symbols' locals binding := by
  simp only [resolveAssignment, resolveVar_congr agrees, resolveExpr_congr agrees]

end

section

variable {symbols symbols' : Symbols}

mutual

theorem resolveStmt_congr (agrees : symbols.Agrees symbols') :
    ∀ (stmt : Stmt) (inLoop : Bool) (locals : Locals),
      resolveStmt symbols inLoop locals stmt = resolveStmt symbols' inLoop locals stmt
  | .declare binding, _, _ => by simp only [resolveStmt, resolveDeclaration_congr agrees]
  | .assign binding, _, _ => by simp only [resolveStmt, resolveAssignment_congr agrees]
  | .return value, _, _ => by simp only [resolveStmt, resolveExpr_congr agrees]
  | .expr value, _, _ => by simp only [resolveStmt, resolveExpr_congr agrees]
  | .if condition body tail, _, _ => by
    simp only [resolveStmt, resolveExpr_congr agrees, resolveStmts_congr agrees body,
      resolveTail_congr agrees tail]
  | .while condition body, _, _ => by
    simp only [resolveStmt, resolveExpr_congr agrees, resolveStmts_congr agrees body]
  | .for init condition update body, _, _ => by
    simp only [resolveStmt, resolveDeclaration_congr agrees, resolveExpr_congr agrees,
      resolveStmts_congr agrees body, resolveAssignment_congr agrees]
  | .break _, _, _ => rfl
  | .continue _, _, _ => rfl

theorem resolveTail_congr (agrees : symbols.Agrees symbols') :
    ∀ (tail : Tail) (inLoop : Bool) (locals : Locals),
      resolveTail symbols inLoop locals tail = resolveTail symbols' inLoop locals tail
  | .none, _, _ => rfl
  | .elseIf condition body tail, _, _ => by
    simp only [resolveTail, resolveExpr_congr agrees, resolveStmts_congr agrees body,
      resolveTail_congr agrees tail]
  | .else body, _, _ => by simp only [resolveTail, resolveStmts_congr agrees body]

theorem resolveStmts_congr (agrees : symbols.Agrees symbols') :
    ∀ (stmts : List Stmt) (inLoop : Bool) (locals : Locals),
      resolveStmts symbols inLoop locals stmts = resolveStmts symbols' inLoop locals stmts
  | [], _, _ => rfl
  | stmt :: stmts, _, _ => by
    simp only [resolveStmts, resolveStmt_congr agrees stmt, resolveStmts_congr agrees stmts]

end

theorem resolveFunction_congr (agrees : symbols.Agrees symbols') (function : Function) :
    resolveFunction symbols function = resolveFunction symbols' function := by
  simp only [resolveFunction, resolveStmts_congr agrees]

theorem resolveGlobal_congr (agrees : symbols.Agrees symbols') (binding : Binding) :
    resolveGlobal symbols binding = resolveGlobal symbols' binding := by
  simp only [resolveGlobal, resolveExpr_congr agrees]

end

theorem declareGlobals_congr {functions functions' : List (String × Nat)}
    (same : ∀ name, functions.lookup name = functions'.lookup name) (known : List String)
    (bindings : List Binding) :
    declareGlobals functions known bindings = declareGlobals functions' known bindings := by
  induction bindings generalizing known with
  | nil => rfl
  | cons binding bindings ih => simp only [declareGlobals, same, ih]

/-- The names of functions with their arities, as they are looked up. -/
def signatures (functions : List Function) : List (String × Nat) :=
  functions.map fun function => (function.name.name, function.arity)

theorem map_fst_signatures (functions : List Function) :
    (signatures functions).map Prod.fst = functions.map (·.name.name) := by
  simp [signatures, Function.comp_def]

/-- Functions are declared exactly if their names are available and distinct. -/
theorem declareFunctions_eq_ok {functions : List Function} {known : List (String × Nat)} :
    declareFunctions [] functions = .ok known ↔
      ((∀ function ∈ functions, Available function.name.name) ∧
        (functions.map (·.name.name)).Nodup) ∧ signatures functions = known := by
  have accepts : (∃ known, declareFunctions [] functions = .ok known) ↔
      (∀ function ∈ functions, Available function.name.name) ∧
        (functions.map (·.name.name)).Nodup := by
    rw [← faultOf_eq_none, faultOf_declareFunctions, List.head?_eq_none_iff]
    rw [List.map_nil, nameFaultsAlong_eq_nil fun _ _ => functionFault?_eq_none]
    simp [Function.comp_def]
  have value : ∀ known, declareFunctions [] functions = .ok known →
      signatures functions = known := by
    intro known declared
    simpa [signatures] using (declareFunctions_sound declared List.nodup_nil).1.symm
  constructor
  · intro declared
    exact ⟨accepts.mp ⟨known, declared⟩, value known declared⟩
  · rintro ⟨rules, rfl⟩
    obtain ⟨known, declared⟩ := accepts.mpr rules
    rwa [value known declared]

/-- A program is settled alike with its functions in another order. -/
theorem resolve_perm {program : Program} {settled : Scoped.Program} {functions : List Function}
    (resolved : resolve program = .ok settled) (permuted : functions.Perm program.functions) :
    ∃ others, resolve { program with functions := functions } =
      .ok { settled with functions := others } ∧ others.Perm settled.functions := by
  unfold resolve at resolved
  cases found : program.main with
  | none => simp [found] at resolved
  | some main =>
    simp only [found, bind_eq_ok, pure_eq_ok, Prod.exists] at resolved
    obtain ⟨known, declared, globals, others, initial, firstValues, body, after, statements, bodies,
      functionBodies, rfl⟩ := resolved
    obtain ⟨⟨available, distinct⟩, rfl⟩ := declareFunctions_eq_ok.mp declared
    have declared' : declareFunctions [] functions = .ok (signatures functions) := by
      refine declareFunctions_eq_ok.mpr ⟨⟨fun function member => ?_, ?_⟩, rfl⟩
      · exact available function (permuted.mem_iff.mp member)
      · exact (permuted.map _).nodup_iff.mpr distinct
    have same : ∀ name,
        (signatures functions).lookup name = (signatures program.functions).lookup name :=
      lookup_perm (permuted.map _) (by rwa [map_fst_signatures])
    have agrees : Symbols.Agrees ⟨signatures functions, globals⟩
        ⟨signatures program.functions, globals⟩ := ⟨same, rfl⟩
    obtain ⟨bodies', settles, permuted'⟩ :=
      List.perm_comp_forall₂ permuted (mapM_eq_ok.mp functionBodies)
    refine ⟨bodies', ?_, permuted'⟩
    simp only [resolve, bind_eq_ok, pure_eq_ok, Prod.exists]
    refine ⟨_, declared', globals, ?_, initial, ?_, body, after, ?_, bodies', ?_, rfl⟩
    · exact (declareGlobals_congr same [] program.globals).trans others
    · rwa [funext (resolveGlobal_congr agrees)]
    · exact (resolveStmts_congr agrees main.body false []).trans statements
    · exact mapM_eq_ok.mpr (by simpa only [resolveFunction_congr agrees] using settles)

end OliCompiler
