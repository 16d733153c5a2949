import OliCompiler.Proofs.Scope.WellScoped
import Mathlib.Data.List.Forall2

/-!
Programs whose names are settled. The tree that settling gives is well scoped, and each of its parts
is the settled form of a part of the program, under the names that the tree itself declares.
-/

namespace OliCompiler

theorem mapM_eq_ok {ε α β : Type} {settle : α → Except ε β} {items : List α} {results : List β} :
    items.mapM settle = .ok results ↔
      List.Forall₂ (fun item result => settle item = .ok result) items results := by
  induction items generalizing results with
  | nil =>
    rw [List.mapM_nil, pure_eq_ok, List.forall₂_nil_left_iff]
    exact eq_comm
  | cons item items ih =>
    simp only [List.mapM_cons, bind_eq_ok, pure_eq_ok, List.forall₂_cons_left_iff]
    constructor
    · intro settles
      rcases settles with ⟨first, one, rest, others, rfl⟩
      exact ⟨first, rest, one, ih.mp others, rfl⟩
    · intro settles
      rcases settles with ⟨first, rest, one, others, rfl⟩
      exact ⟨first, one, rest, ih.mpr others, rfl⟩

theorem lookup_isSome_iff_mem {known : List (String × Nat)} {name : String} :
    (known.lookup name).isSome = true ↔ name ∈ known.map Prod.fst := by
  simp [List.lookup_isSome_iff]

theorem declareFunctions_cons {known result : List (String × Nat)} {function : Function}
    {functions : List Function} :
    declareFunctions known (function :: functions) = .ok result ↔
      isReserved function.name.name = false ∧ isRuntimeSymbol function.name.name = false ∧
        function.name.name ∉ known.map Prod.fst ∧
        declareFunctions (known ++ [(function.name.name, function.arity)]) functions =
          .ok result := by
  by_cases reserved : isReserved function.name.name = true
  · simp [declareFunctions, reserved]
  · by_cases runtime : isRuntimeSymbol function.name.name = true
    · simp [declareFunctions, reserved, runtime]
    · by_cases present : function.name.name ∈ known.map Prod.fst
      · simp [declareFunctions, reserved, runtime, lookup_isSome_iff_mem.mpr present, present]
      · have absent : ¬(known.lookup function.name.name).isSome = true := lookup_isSome_iff_mem.not.mpr present
        simp only [declareFunctions, reserved, runtime, absent, present]
        simp

theorem declareFunctions_sound {known result : List (String × Nat)} {functions : List Function}
    (declared : declareFunctions known functions = .ok result)
    (distinct : (known.map Prod.fst).Nodup) :
    result = known ++ functions.map (fun function => (function.name.name, function.arity)) ∧
      (result.map Prod.fst).Nodup ∧
      ∀ function ∈ functions, isRuntimeSymbol function.name.name = false := by
  induction functions generalizing known with
  | nil =>
    cases declared
    simpa using distinct
  | cons function functions ih =>
    obtain ⟨_, runtime, absent, rest⟩ := declareFunctions_cons.mp declared
    have extended : ((known ++ [(function.name.name, function.arity)]).map Prod.fst).Nodup := by
      rw [List.map_append]
      exact distinct.append (List.nodup_singleton _) (by simpa using absent)
    obtain ⟨rfl, nodup, apart⟩ := ih rest extended
    exact ⟨by simp, nodup, List.forall_mem_cons.mpr ⟨runtime, apart⟩⟩

theorem declareGlobals_cons {functions : List (String × Nat)} {known result : List String}
    {binding : Binding} {bindings : List Binding}
    (declared : declareGlobals functions known (binding :: bindings) = .ok result) :
    declareGlobals functions (known ++ [binding.name.name]) bindings = .ok result := by
  unfold declareGlobals at declared
  by_cases reserved : isReserved binding.name.name = true
  · simp [reserved] at declared
  · by_cases clash : (isRuntimeSymbol binding.name.name ||
        (functions.lookup binding.name.name).isSome) = true
    · simp [reserved, clash] at declared
    · by_cases present : known.contains binding.name.name = true
      · simp only [reserved, clash, present] at declared
        cases declared
      · simpa only [reserved, clash, present, Bool.false_eq_true, if_false] using declared

theorem declareGlobals_sound {functions : List (String × Nat)} {known result : List String}
    {bindings : List Binding} (declared : declareGlobals functions known bindings = .ok result) :
    result = known ++ bindings.map fun binding => binding.name.name := by
  induction bindings generalizing known with
  | nil =>
    cases declared
    simp
  | cons binding bindings ih => simpa using ih (declareGlobals_cons declared)

theorem declareParams_sound {locals after : Locals} {params : List Ident}
    (declared : declareParams locals params = .ok after) (distinct : locals.Nodup) :
    after = locals ++ params.map Ident.name ∧ after.Nodup := by
  induction params generalizing locals with
  | nil =>
    cases declared
    simpa using distinct
  | cons param params ih =>
    obtain ⟨middle, first, rest⟩ := bind_eq_ok.mp declared
    obtain ⟨_, absent, rfl⟩ := declareLocal_eq_ok.mp first
    have nodup : (locals ++ [param.name]).Nodup :=
      distinct.append (List.nodup_singleton _) (by simpa using absent)
    obtain ⟨rfl, nodup⟩ := ih rest nodup
    exact ⟨by simp, nodup⟩

variable {symbols : Symbols}

theorem resolveFunction_eq_ok {function : Function} {settled : Scoped.Function} :
    resolveFunction symbols function = .ok settled ↔
      ∃ locals, declareParams [] function.params = .ok locals ∧
        ∃ body after, resolveStmts symbols false locals function.body = .ok (body, after) ∧
          ⟨function.name.name, function.arity, body⟩ = settled := by
  simp only [resolveFunction, bind_eq_ok, pure_eq_ok, Prod.exists]

theorem resolveGlobal_eq_ok {binding : Binding} {settled : String × Scoped.Expr} :
    resolveGlobal symbols binding = .ok settled ↔
      ∃ value, resolveExpr symbols [] binding.value = .ok value ∧
        (binding.name.name, value) = settled := by
  simp only [resolveGlobal, bind_eq_ok, pure_eq_ok]

/-- A settled function has the parameters of the function as its first locals. -/
theorem resolveFunction_body {function : Function} {settled : Scoped.Function}
    (resolved : resolveFunction symbols function = .ok settled) :
    ∃ after, resolveStmts symbols false (function.params.map Ident.name) function.body =
        .ok (settled.body, after) ∧
      (function.params.map Ident.name).Nodup ∧ settled.name = function.name.name ∧
      settled.arity = function.arity := by
  obtain ⟨locals, params, body, after, resolved, rfl⟩ := resolveFunction_eq_ok.mp resolved
  obtain ⟨rfl, nodup⟩ := declareParams_sound params List.nodup_nil
  exact ⟨after, by simpa using resolved, by simpa using nodup, rfl, rfl⟩

/-- A program with an entry function and its settled tree. -/
structure Settles (program : Program) (entry : Function) (settled : Scoped.Program) : Prop where
  main : program.main = some entry
  globals : List.Forall₂ (fun binding global =>
    resolveGlobal settled.symbols binding = .ok global) program.globals settled.globals
  body : ∃ after, resolveStmts settled.symbols false [] entry.body = .ok (settled.main, after)
  functions : List.Forall₂ (fun function result =>
    resolveFunction settled.symbols function = .ok result) program.functions settled.functions
  names : (settled.functions.map Scoped.Function.name).Nodup
  apart : ∀ function ∈ settled.functions, isRuntimeSymbol function.name = false

theorem settled_signatures {functions : List Function} {settled : List Scoped.Function}
    (resolved : List.Forall₂ (fun function result =>
      resolveFunction symbols function = .ok result) functions settled) :
    settled.map (fun function => (function.name, function.arity)) =
      functions.map fun function => (function.name.name, function.arity) := by
  induction resolved with
  | nil => rfl
  | cons first _ ih =>
    obtain ⟨_, _, _, name, arity⟩ := resolveFunction_body first
    simp [ih, name, arity]

theorem settled_globals {bindings : List Binding} {globals : List (String × Scoped.Expr)}
    (resolved : List.Forall₂ (fun binding global =>
      resolveGlobal symbols binding = .ok global) bindings globals) :
    globals.map Prod.fst = bindings.map fun binding => binding.name.name := by
  induction resolved with
  | nil => rfl
  | cons first _ ih =>
    obtain ⟨_, _, rfl⟩ := resolveGlobal_eq_ok.mp first
    simp [ih]

theorem resolve_settles {program : Program} {settled : Scoped.Program}
    (resolved : resolve program = .ok settled) : ∃ main, Settles program main settled := by
  unfold resolve at resolved
  cases found : program.main with
  | none => simp [found] at resolved
  | some main =>
    simp only [found, bind_eq_ok, pure_eq_ok, Prod.exists] at resolved
    obtain ⟨functions, declared, globals, others, initial, firstValues, body, after, statements,
      bodies, functionBodies, rfl⟩ := resolved
    obtain ⟨rfl, nodup, apart⟩ := declareFunctions_sound declared List.nodup_nil
    obtain rfl := declareGlobals_sound others
    have firstValues := mapM_eq_ok.mp firstValues
    have functionBodies := mapM_eq_ok.mp functionBodies
    have signatures := settled_signatures functionBodies
    have symbols : (⟨initial, body, bodies⟩ : Scoped.Program).symbols =
        ⟨[] ++ program.functions.map fun function => (function.name.name, function.arity),
          [] ++ program.globals.map fun binding => binding.name.name⟩ := by
      simp [Scoped.Program.symbols, signatures, settled_globals firstValues]
    have names : bodies.map Scoped.Function.name =
        program.functions.map fun function => function.name.name := by
      simpa [Function.comp_def] using congrArg (List.map Prod.fst) signatures
    refine ⟨main, found, symbols ▸ firstValues, ⟨after, symbols ▸ statements⟩,
      symbols ▸ functionBodies, ?_, ?_⟩
    · rw [names]
      simpa [Function.comp_def] using nodup
    · intro function member
      have listed : function.name ∈ program.functions.map fun function => function.name.name :=
        names ▸ List.mem_map.mpr ⟨function, member, rfl⟩
      obtain ⟨source, present, same⟩ := List.mem_map.mp listed
      exact same ▸ apart source present

theorem mem_of_forall₂ {α β : Type} {related : α → β → Prop} {items : List α}
    {results : List β} (all : List.Forall₂ related items results) {result : β}
    (member : result ∈ results) : ∃ item ∈ items, related item result := by
  induction all with
  | nil => cases member
  | cons first _ ih =>
    rcases List.mem_cons.mp member with rfl | member
    · exact ⟨_, List.mem_cons_self, first⟩
    · obtain ⟨item, present, same⟩ := ih member
      exact ⟨item, List.mem_cons_of_mem _ present, same⟩

theorem Settles.wellScoped {program : Program} {main : Function} {settled : Scoped.Program}
    (settles : Settles program main settled) : settled.WellScoped where
  names := settles.names
  apart := settles.apart
  globals := by
    intro global member
    obtain ⟨binding, _, resolved⟩ := mem_of_forall₂ settles.globals member
    obtain ⟨value, valueResolved, rfl⟩ := resolveGlobal_eq_ok.mp resolved
    exact resolveExpr_inScope valueResolved
  main := by
    obtain ⟨after, resolved⟩ := settles.body
    exact resolveStmts_inScope resolved
  functions := by
    intro function member
    obtain ⟨source, _, resolved⟩ := mem_of_forall₂ settles.functions member
    obtain ⟨after, resolved, _, _, arity⟩ := resolveFunction_body resolved
    have inScope := resolveStmts_inScope resolved
    rwa [List.length_map, ← Function.arity, ← arity] at inScope

end OliCompiler
