import OliCompiler.Proofs.Evaluation.Scoped
import OliCompiler.Proofs.Scope.Settled

/-!
Settling names keeps the meaning of a program: its direct evaluation, with locals by name, is that of
the settled tree, with locals by number.
-/

namespace OliCompiler

open Evaluation

namespace Evaluation

/-- A state with its locals under their names. -/
def State.byName (names : List String) (state : State Nat) : State String :=
  ⟨fun name => (names.idxOf? name).bind state.locals, state.world⟩

@[simp]
theorem State.byName_world {names : List String} {state : State Nat} :
    (state.byName names).world = state.world := rfl

theorem State.byName_setLocal {names : List String} {state : State Nat} {name : String} {slot : Nat}
    {value : Int32} (found : names.idxOf? name = some slot) :
    (state.byName names).setLocal name value = (state.setLocal slot value).byName names := by
  simp only [State.byName, State.setLocal, State.mk.injEq, and_true]
  funext other
  by_cases same : other = name
  · simp [same, found]
  · cases otherFound : names.idxOf? other with
    | none => simp [same]
    | some index =>
      have distinct : index ≠ slot := by
        rintro rfl
        obtain ⟨_, atOther, _⟩ := List.idxOf?_eq_some_iff.mp otherFound
        obtain ⟨_, atName, _⟩ := List.idxOf?_eq_some_iff.mp found
        exact same (atOther.symm.trans atName)
      simp [same, distinct]

theorem fork_map {σ τ : Type} {view : σ → τ} {test : σ → Except Stop (Int32 × σ)}
    {yes no : σ → Except Stop (Exit × σ)} {test' : τ → Except Stop (Int32 × τ)}
    {yes' no' : τ → Except Stop (Exit × τ)}
    (tests : ∀ state, test' (view state) = Prod.map id view <$> test state)
    (yeses : ∀ state, yes' (view state) = Prod.map id view <$> yes state)
    (noes : ∀ state, no' (view state) = Prod.map id view <$> no state) (state : σ) :
    (do
      let (value, state) ← test' (view state)
      if value = 0 then no' state else yes' state) =
      Prod.map id view <$> (do
        let (value, state) ← test state
        if value = 0 then no state else yes state) := by
  simp only [tests, bind_map_left, map_bind]
  refine bind_congr fun ⟨value, state⟩ => ?_
  by_cases zero : value = 0
  · simp [zero, noes]
  · simp [zero, yeses]

theorem loop_map {σ τ : Type} {view : σ → τ} {test : σ → Except Stop (Int32 × σ)}
    {body : σ → Except Stop (Exit × σ)} {update : σ → Except Stop σ}
    {test' : τ → Except Stop (Int32 × τ)} {body' : τ → Except Stop (Exit × τ)}
    {update' : τ → Except Stop τ}
    (tests : ∀ state, test' (view state) = Prod.map id view <$> test state)
    (bodies : ∀ state, body' (view state) = Prod.map id view <$> body state)
    (updates : ∀ state, update' (view state) = view <$> update state) (rounds : Nat) (state : σ) :
    loop test' body' update' rounds (view state) =
      Prod.map id view <$> loop test body update rounds state := by
  induction rounds generalizing state with
  | zero => rfl
  | succ rounds ih =>
    simp only [loop, tests, bind_map_left, map_bind]
    refine bind_congr fun ⟨value, state⟩ => ?_
    by_cases zero : value = 0
    · simp [zero]
    · simp only [Prod.map, id, zero, if_false, bodies, bind_map_left, map_bind]
      refine bind_congr fun ⟨exit, state⟩ => ?_
      cases exit <;> simp [updates, ih]

end Evaluation

variable {symbols : Symbols} {names locals after : Locals} {rules : Rules} {calls : Calls}
  {function : String}

theorem resolveVar_slot {name : Ident} {slot : Nat}
    (resolved : resolveVar symbols locals name = .ok (.local slot)) (visible : locals <+: names) :
    name.name ∈ locals ∧ names.idxOf? name.name = some slot := by
  rcases resolveVar_eq_ok.mp resolved with ⟨_, found, ⟨⟩⟩ | ⟨_, _, ⟨⟩⟩
  obtain ⟨bound, first, before⟩ := List.idxOf?_eq_some_iff.mp found
  obtain ⟨rest, rfl⟩ := visible
  refine ⟨first ▸ List.getElem_mem bound, List.idxOf?_eq_some_iff.mpr ⟨?_, ?_, ?_⟩⟩
  · rw [List.length_append]
    omega
  · rw [List.getElem_append_left bound, first]
  · intro index less
    rw [List.getElem_append_left (by omega)]
    exact before index less

theorem declareLocal_slot {name : Ident} (declared : declareLocal locals name = .ok after)
    (visible : after <+: names) : names.idxOf? name.name = some locals.length := by
  obtain ⟨_, absent, rfl⟩ := declareLocal_eq_ok.mp declared
  obtain ⟨rest, rfl⟩ := visible
  refine List.idxOf?_eq_some_iff.mpr ⟨by simp, by simp, ?_⟩
  intro index less same
  rw [List.getElem_append_left (by simpa using Nat.lt_succ_of_lt less),
    List.getElem_append_left less] at same
  exact absent (same ▸ List.getElem_mem less)

theorem resolveVar_agrees {name : Ident} {var : Scoped.Var}
    (resolved : resolveVar symbols locals name = .ok var) (visible : locals <+: names)
    (rules : Rules) (state : State Nat) :
    (if name.name ∈ locals then rules.read ((state.byName names).locals name.name)
      else .ok (state.world.globals name.name)) =
      var.evaluate rules state.locals state.world := by
  cases var with
  | «local» slot =>
    obtain ⟨member, found⟩ := resolveVar_slot resolved visible
    simp [member, State.byName, found, Scoped.Var.evaluate]
  | global other =>
    rcases resolveVar_eq_ok.mp resolved with ⟨_, _, ⟨⟩⟩ | ⟨absent, _, ⟨⟩⟩
    simp [absent, Scoped.Var.evaluate]

theorem resolveVar_set {name : Ident} {var : Scoped.Var} {state : State Nat} {value : Int32}
    (resolved : resolveVar symbols locals name = .ok var) (visible : locals <+: names) :
    (if name.name ∈ locals then (state.byName names).setLocal name.name value
      else (state.byName names).setGlobal name.name value) =
      (var.set value state).byName names := by
  cases var with
  | «local» slot =>
    obtain ⟨member, found⟩ := resolveVar_slot resolved visible
    rw [if_pos member, State.byName_setLocal found]
    rfl
  | global other =>
    rcases resolveVar_eq_ok.mp resolved with ⟨_, _, ⟨⟩⟩ | ⟨absent, _, ⟨⟩⟩
    rw [if_neg absent]
    rfl

mutual

/-- An expression and its settled form have the same value and print the same. -/
theorem resolveExpr_agrees {locals : Locals} {state : State Nat} (visible : locals <+: names) :
    ∀ {expr : Expr} {settled : Scoped.Expr} {world : World},
      resolveExpr symbols locals expr = .ok settled →
      expr.evaluate rules calls function locals (state.byName names).locals world =
        settled.evaluate rules calls function state.locals world
  | .int _ _, _, _, resolved => by
    cases resolved
    rfl
  | .var _, _, world, resolved => by
    obtain ⟨var, found, rfl⟩ := resolveExpr_var.mp resolved
    have value := resolveVar_agrees found visible rules ⟨state.locals, world⟩
    simp only [Expr.evaluate, Scoped.Expr.evaluate, ← value]
    split <;> rfl
  | .call _ _ _, _, world, resolved => by
    rcases resolveExpr_call.mp resolved with
      ⟨printer, value, argsResolved, rfl⟩ | ⟨other, _, values, argsResolved, rfl⟩
    · simp only [Expr.evaluate, resolveArgs_agrees visible argsResolved, printer, if_true,
        Scoped.Expr.evaluate, Scoped.Expr.evaluateAll, bind_assoc, pure_bind]
      rfl
    · simp only [Expr.evaluate, resolveArgs_agrees visible argsResolved, other, if_false,
        Scoped.Expr.evaluate]
  | .binary _ _ _, _, _, resolved => by
    obtain ⟨a, left, b, right, rfl⟩ := resolveExpr_binary.mp resolved
    simp only [Expr.evaluate, Scoped.Expr.evaluate, resolveExpr_agrees visible left,
      resolveExpr_agrees visible right]

theorem resolveArgs_agrees {locals : Locals} {state : State Nat} (visible : locals <+: names) :
    ∀ {args : List Expr} {settled : List Scoped.Expr} {world : World},
      resolveArgs symbols locals args = .ok settled →
      Expr.evaluateAll rules calls function locals (state.byName names).locals args world =
        Scoped.Expr.evaluateAll rules calls function state.locals settled world
  | [], _, _, resolved => by
    cases resolved
    rfl
  | _ :: _, _, _, resolved => by
    obtain ⟨first, one, rest, others, rfl⟩ := resolveArgs_cons.mp resolved
    simp only [Expr.evaluateAll, Scoped.Expr.evaluateAll, resolveExpr_agrees visible one,
      resolveArgs_agrees visible others]

end

theorem resolveExpr_evaluateIn {expr : Expr} {settled : Scoped.Expr}
    (resolved : resolveExpr symbols locals expr = .ok settled) (visible : locals <+: names)
    (state : State Nat) :
    expr.evaluateIn rules calls function locals (state.byName names) =
      Prod.map id (State.byName names) <$> settled.evaluateIn rules calls function state := by
  simp only [Expr.evaluateIn, Scoped.Expr.evaluateIn, State.byName_world,
    resolveExpr_agrees visible resolved, map_bind]
  rfl

theorem resolveAssignment_agrees {binding : Binding} {var : Scoped.Var} {value : Scoped.Expr}
    (found : resolveVar symbols locals binding.name = .ok var)
    (resolved : resolveExpr symbols locals binding.value = .ok value) (visible : locals <+: names)
    (state : State Nat) :
    binding.assign rules calls function locals (state.byName names) =
      State.byName names <$> var.assign rules calls function value state := by
  simp only [Binding.assign, Scoped.Var.assign, resolveExpr_evaluateIn resolved visible,
    bind_map_left, map_bind]
  refine bind_congr fun ⟨value, state⟩ => ?_
  rw [map_pure, ← resolveVar_set found visible]
  split <;> rfl

theorem resolveDeclaration_agrees {binding : Binding} {value : Scoped.Expr}
    (resolved : resolveExpr symbols locals binding.value = .ok value)
    (declared : declareLocal locals binding.name = .ok after) (visible : after <+: names)
    (state : State Nat) :
    binding.declare rules calls function locals (state.byName names) =
      State.byName names <$>
        (Scoped.Var.local locals.length).assign rules calls function value state := by
  have before : locals <+: names := by
    obtain ⟨_, _, rfl⟩ := declareLocal_eq_ok.mp declared
    exact (List.prefix_append _ _).trans visible
  simp only [Binding.declare, Scoped.Var.assign, resolveExpr_evaluateIn resolved before,
    bind_map_left, map_bind]
  refine bind_congr fun ⟨value, state⟩ => ?_
  simp only [Prod.map, id, State.byName_setLocal (declareLocal_slot declared visible), map_pure]
  rfl

theorem resolveTail_visible {inLoop : Bool} {tail : Tail} {settled : Scoped.Tail}
    (resolved : resolveTail symbols inLoop locals tail = .ok (settled, after))
    (visible : after <+: names) : locals <+: names := by
  rw [resolveTail_after resolved] at visible
  exact (List.prefix_append _ _).trans visible

theorem resolveStmts_visible {inLoop : Bool} {stmts : List Stmt} {settled : List Scoped.Stmt}
    (resolved : resolveStmts symbols inLoop locals stmts = .ok (settled, after))
    (visible : after <+: names) : locals <+: names := by
  rw [resolveStmts_after resolved] at visible
  exact (List.prefix_append _ _).trans visible

mutual

/-- A statement and its settled form do the same, where the names of the function begin with the
locals declared so far and those of the statement. -/
theorem resolveStmt_agrees : ∀ {inLoop : Bool} {locals after : Locals} {stmt : Stmt}
    {settled : Scoped.Stmt}, resolveStmt symbols inLoop locals stmt = .ok (settled, after) →
      after <+: names → ∀ state : State Nat,
        stmt.evaluate rules calls function locals (state.byName names) =
          Prod.map id (State.byName names) <$> settled.evaluate rules calls function state
  | _, _, _, .declare _, _, resolved, visible, state => by
    obtain ⟨_, value, declared, rfl⟩ := resolveStmt_declare.mp resolved
    simp only [Stmt.evaluate, Scoped.Stmt.evaluate,
      resolveDeclaration_agrees value declared visible, bind_map_left, map_bind, map_pure]
    rfl
  | _, _, _, .assign _, _, resolved, visible, state => by
    obtain ⟨_, found, _, value, rfl, rfl⟩ := resolveStmt_assign.mp resolved
    simp only [Stmt.evaluate, Scoped.Stmt.evaluate, resolveAssignment_agrees found value visible,
      bind_map_left, map_bind, map_pure]
    rfl
  | _, _, _, .return _, _, resolved, visible, state => by
    obtain ⟨_, value, rfl, rfl⟩ := resolveStmt_return.mp resolved
    simp only [Stmt.evaluate, Scoped.Stmt.evaluate, resolveExpr_evaluateIn value visible,
      bind_map_left, map_bind, map_pure]
    rfl
  | _, _, _, .expr _, _, resolved, visible, state => by
    obtain ⟨_, value, rfl, rfl⟩ := resolveStmt_expr.mp resolved
    simp only [Stmt.evaluate, Scoped.Stmt.evaluate, resolveExpr_evaluateIn value visible,
      bind_map_left, map_bind, map_pure]
    rfl
  | _, _, _, .if _ _ _, _, resolved, visible, state => by
    obtain ⟨_, condition, _, _, body, _, _, tail, rfl, rfl⟩ := resolveStmt_if.mp resolved
    have middle := resolveTail_visible tail visible
    obtain rfl := resolveStmts_after body
    simp only [Stmt.evaluate, Scoped.Stmt.evaluate]
    exact fork_map (resolveExpr_evaluateIn condition (resolveStmts_visible body middle))
      (resolveStmts_agrees body middle) (resolveTail_agrees tail visible) state
  | _, _, _, .while _ _, _, resolved, visible, state => by
    obtain ⟨_, condition, _, _, bodyResolved, rfl, rfl⟩ := resolveStmt_while.mp resolved
    have start := resolveStmts_visible bodyResolved visible
    simp only [Stmt.evaluate, Scoped.Stmt.evaluate]
    exact loop_map (resolveExpr_evaluateIn condition start)
      (resolveStmts_agrees bodyResolved visible) (fun _ => rfl) _ _
  | _, locals, _, .for init _ _ body, _, resolved, visible, state => by
    obtain ⟨_, first, inside, declared, _, condition, _, _, bodyResolved, _, found, _, update, rfl,
      rfl⟩ := resolveStmt_for.mp resolved
    obtain rfl := resolveStmts_after bodyResolved
    have start : inside <+: names := (List.prefix_append _ _).trans visible
    simp only [Stmt.evaluate, Scoped.Stmt.evaluate, resolveDeclaration_agrees first declared start,
      bind_map_left, map_bind]
    obtain ⟨_, _, rfl⟩ := declareLocal_eq_ok.mp declared
    refine bind_congr fun state => ?_
    exact loop_map (resolveExpr_evaluateIn condition start)
      (resolveStmts_agrees bodyResolved visible) (resolveAssignment_agrees found update visible) _ _
  | _, _, _, .break _, _, resolved, _, state => by
    obtain ⟨_, rfl, _⟩ := resolveStmt_break.mp resolved
    rfl
  | _, _, _, .continue _, _, resolved, _, state => by
    obtain ⟨_, rfl, _⟩ := resolveStmt_continue.mp resolved
    rfl

theorem resolveTail_agrees : ∀ {inLoop : Bool} {locals after : Locals} {tail : Tail}
    {settled : Scoped.Tail}, resolveTail symbols inLoop locals tail = .ok (settled, after) →
      after <+: names → ∀ state : State Nat,
        tail.evaluate rules calls function locals (state.byName names) =
          Prod.map id (State.byName names) <$> settled.evaluate rules calls function state
  | _, _, _, .none, _, resolved, _, state => by
    obtain ⟨rfl, _⟩ := resolveTail_none.mp resolved
    rfl
  | _, _, _, .elseIf _ _ _, _, resolved, visible, state => by
    obtain ⟨_, condition, _, _, body, _, _, tail, rfl, rfl⟩ := resolveTail_elseIf.mp resolved
    have middle := resolveTail_visible tail visible
    obtain rfl := resolveStmts_after body
    simp only [Tail.evaluate, Scoped.Tail.evaluate]
    exact fork_map (resolveExpr_evaluateIn condition (resolveStmts_visible body middle))
      (resolveStmts_agrees body middle) (resolveTail_agrees tail visible) state
  | _, _, _, .else _, _, resolved, visible, state => by
    obtain ⟨_, _, bodyResolved, rfl, rfl⟩ := resolveTail_else.mp resolved
    exact resolveStmts_agrees bodyResolved visible state

theorem resolveStmts_agrees : ∀ {inLoop : Bool} {locals after : Locals} {stmts : List Stmt}
    {settled : List Scoped.Stmt}, resolveStmts symbols inLoop locals stmts = .ok (settled, after) →
      after <+: names → ∀ state : State Nat,
        Stmt.evaluateAll rules calls function locals stmts (state.byName names) =
          Prod.map id (State.byName names) <$>
            Scoped.Stmt.evaluateAll rules calls function settled state
  | _, _, _, [], _, resolved, _, state => by
    obtain ⟨rfl, _⟩ := resolveStmts_nil.mp resolved
    rfl
  | _, _, _, _ :: _, _, resolved, visible, state => by
    obtain ⟨_, _, first, _, _, rest, rfl, rfl⟩ := resolveStmts_cons.mp resolved
    have middle := resolveStmts_visible rest visible
    obtain rfl := resolveStmt_after first
    simp only [Stmt.evaluateAll, Scoped.Stmt.evaluateAll, resolveStmt_agrees first middle,
      bind_map_left, map_bind]
    refine bind_congr fun ⟨exit, state⟩ => ?_
    cases exit with
    | next => exact resolveStmts_agrees rest visible state
    | broke | continued | returned => rfl

end

theorem lookup_zip_eq {params : List String} {args : List Int32} {name : String}
    (visible : params <+: names) (same : args.length = params.length) :
    (params.zip args).lookup name = (names.idxOf? name).bind fun slot => args[slot]? := by
  obtain ⟨rest, rfl⟩ := visible
  induction params generalizing args with
  | nil =>
    obtain rfl := List.length_eq_zero_iff.mp same
    cases found : ([] ++ rest).idxOf? name <;> simp
  | cons param params ih =>
    obtain ⟨arg, args, rfl⟩ := List.exists_cons_of_length_eq_add_one same
    have others := @ih args (by simpa using same)
    rw [List.zip_cons_cons, List.lookup_cons, List.cons_append, List.idxOf?_cons, BEq.comm]
    by_cases first : param = name
    · simp [first]
    · simp only [beq_false_of_ne first, others]
      cases (params ++ rest).idxOf? name <;> simp

/-- The body of a function and its settled form give the same result. -/
theorem resolveBody_agrees {params : Locals} {body : List Stmt} {settled : List Scoped.Stmt}
    {args : List Int32} {world : World}
    (resolved : resolveStmts symbols false params body = .ok (settled, after))
    (same : args.length = params.length) :
    Stmt.evaluateBody rules calls function params args body world =
      Scoped.Stmt.evaluateBody rules calls function args settled world := by
  have visible : params <+: after := resolveStmts_visible resolved (List.prefix_refl after)
  have start : (⟨fun name => (params.zip args).lookup name, world⟩ : State String) =
      State.byName after ⟨fun slot => args[slot]?, world⟩ := by
    simp only [State.byName, lookup_zip_eq visible same]
  simp only [Stmt.evaluateBody, Scoped.Stmt.evaluateBody, start,
    resolveStmts_agrees resolved (List.prefix_refl after), bind_map_left]
  rfl

/-- Functions and their settled forms are found under the same names. -/
theorem settled_find? {functions : List Function} {settled : List Scoped.Function}
    (resolved : List.Forall₂ (fun source result => resolveFunction symbols source = .ok result)
      functions settled) (name : String) :
    (functions.find? (fun source => source.name.name = name) = none ∧
        settled.find? (fun result => result.name = name) = none) ∨
      ∃ source result, functions.find? (fun source => source.name.name = name) = some source ∧
        settled.find? (fun result => result.name = name) = some result ∧
        resolveFunction symbols source = .ok result := by
  induction resolved with
  | nil => exact .inl ⟨rfl, rfl⟩
  | @cons source result _ _ first _ ih =>
    obtain ⟨_, _, _, sameName, _⟩ := resolveFunction_body first
    by_cases same : source.name.name = name
    · exact .inr ⟨source, result, by simp [same], by simp [sameName, same], first⟩
    · simpa [List.find?_cons, sameName, same] using ih

/-- Calls lead to the same with functions and with their settled forms. -/
theorem resolveFunctions_agree {functions : List Function} {settled : List Scoped.Function}
    (resolved : List.Forall₂ (fun source result => resolveFunction symbols source = .ok result)
      functions settled) (depth : Nat) :
    Function.evaluate rules functions depth = Scoped.Function.evaluate rules settled depth := by
  induction depth with
  | zero => rfl
  | succ depth ih =>
    funext name args world
    rcases settled_find? resolved name with ⟨absent, absentToo⟩ | ⟨source, result, found, foundToo,
      first⟩
    · simp only [Function.evaluate, Scoped.Function.evaluate, absent, absentToo]
    · obtain ⟨_, body, _, _, arity⟩ := resolveFunction_body first
      simp only [Function.evaluate, Scoped.Function.evaluate, found, foundToo, arity, ih]
      by_cases same : args.length = source.arity
      · rw [if_pos same, if_pos same]
        exact resolveBody_agrees body (by simpa [Function.arity] using same)
      · rw [if_neg same, if_neg same]

theorem resolveGlobals_agree {bindings : List Binding} {globals : List (String × Scoped.Expr)}
    (resolved : List.Forall₂ (fun binding global =>
      resolveGlobal symbols binding = .ok global) bindings globals) (world : World) :
    Binding.evaluateGlobals rules calls function bindings world =
      Scoped.Expr.evaluateGlobals rules calls function globals world := by
  induction resolved generalizing world with
  | nil => rfl
  | @cons binding _ _ _ first _ ih =>
    obtain ⟨value, valueResolved, rfl⟩ := resolveGlobal_eq_ok.mp first
    have agrees : binding.value.evaluate rules calls function [] (fun _ => none) world =
        value.evaluate rules calls function (fun _ => none) world :=
      @resolveExpr_agrees _ [] _ _ _ [] ⟨fun _ => none, world⟩ List.nil_prefix _ _ _ valueResolved
    simp only [Binding.evaluateGlobals, Scoped.Expr.evaluateGlobals, ih, agrees]

/-- Settling the names of a program keeps its outcome, under all rules. -/
theorem resolve_evaluate {program : Program} {settled : Scoped.Program}
    (resolved : resolve program = .ok settled) (rules : Rules) :
    program.evaluate rules = settled.evaluate rules := by
  obtain ⟨main, settles⟩ := resolve_settles resolved
  obtain ⟨after, body⟩ := settles.body
  simp only [Program.evaluate, settles.main, Scoped.Program.evaluate]
  cases rules.maxDepth with
  | zero => rfl
  | succ depth =>
    simp only [resolveFunctions_agree settles.functions, resolveGlobals_agree settles.globals]
    refine bind_congr fun world => ?_
    rw [resolveBody_agrees body rfl]

end OliCompiler
