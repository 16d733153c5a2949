import OliCompiler.Proofs.Scope.Rules
import OliCompiler.Proofs.Scope.Settled

/-!
Settling names stops at the first fault. Each part of the settling gives the fault that stands first in
the faults of what it reads, and succeeds if there is none.
-/

namespace OliCompiler

/-- The fault that a part of the settling stops at. -/
def faultOf {α : Type} : Except LowerError α → Option LowerError
  | .ok _ => none
  | .error error => some error

section

variable {α β : Type} {result : Except LowerError α} {faults faults' : List LowerError}

theorem faultOf_eq_none : faultOf result = none ↔ ∃ value, result = .ok value := by
  cases result <;> simp [faultOf]

theorem faultOf_eq_some {error : LowerError} :
    faultOf result = some error ↔ result = .error error := by
  cases result <;> simp [faultOf]

theorem faultOf_bind {next : α → Except LowerError β} (first : faultOf result = faults.head?)
    (rest : ∀ value, result = .ok value → faultOf (next value) = faults'.head?) :
    faultOf (result >>= next) = (faults ++ faults').head? := by
  cases result with
  | error error =>
    rw [List.head?_append, ← first]
    rfl
  | ok value =>
    rw [List.head?_append, ← first]
    exact rest value rfl

theorem faultOf_mapM {settle : α → Except LowerError β} {faultsOf : α → List LowerError}
    (each : ∀ item, faultOf (settle item) = (faultsOf item).head?) (items : List α) :
    faultOf (items.mapM settle) = (items.flatMap faultsOf).head? := by
  induction items with
  | nil => rfl
  | cons item items ih =>
    rw [List.mapM_cons, List.flatMap_cons]
    refine faultOf_bind (each item) fun value _ => ?_
    have done := @faultOf_bind _ _ _ _ [] (fun values => pure (value :: values)) ih fun _ _ => rfl
    rwa [List.append_nil] at done

end

section

variable {α : Type} {declared : α → List String} {fault? : List String → α → Option LowerError}
  {known : List String}

@[simp]
theorem faultsAlong_nil : faultsAlong declared fault? known [] = [] := rfl

@[simp]
theorem faultsAlong_singleton {item : α} :
    faultsAlong declared fault? known [item] = (fault? known item).toList := by
  simp [faultsAlong]

theorem faultsAlong_append {items items' : List α} :
    faultsAlong declared fault? known (items ++ items') =
      faultsAlong declared fault? known items ++
        faultsAlong declared fault? (known ++ items.flatMap declared) items' := by
  induction items generalizing known with
  | nil => simp
  | cons item items ih => simp [faultsAlong, ih]

end

/-- Whether a part of the settling of a body gives the first fault of some events. -/
def Reports {α : Type} (symbols : Symbols) (locals : Locals) (events : List Event)
    (result : Except LowerError α) : Prop :=
  faultOf result = (bodyFaults symbols locals events).head?

variable {symbols : Symbols} {locals : Locals} {events events' : List Event}

namespace Reports

variable {α β : Type} {result : Except LowerError α}

theorem ok (value : α) : Reports symbols locals [] (.ok value) := rfl

theorem one {event : Event} (same : faultOf result = event.fault? symbols locals) :
    Reports symbols locals [event] result := by
  unfold Reports bodyFaults
  rw [same, faultsAlong_singleton, Option.head?_toList]

/-- What follows a fault is not looked at. -/
theorem stop {event : Event} {error : LowerError}
    (fault : event.fault? symbols locals = some error) :
    Reports symbols locals (event :: events) (.error error : Except LowerError α) := by
  simp [Reports, bodyFaults, faultsAlong, fault, faultOf]

theorem bind {next : α → Except LowerError β} (first : Reports symbols locals events result)
    (rest : ∀ value, result = .ok value →
      Reports symbols (locals ++ declaredBy events) events' (next value)) :
    Reports symbols locals (events ++ events') (result >>= next) := by
  unfold Reports bodyFaults
  rw [faultsAlong_append]
  exact faultOf_bind first rest

/-- A part behind one that declares nothing is settled with the same locals. -/
theorem andThen {next : α → Except LowerError β} (first : Reports symbols locals events result)
    (plain : declaredBy events = [])
    (rest : ∀ value, result = .ok value → Reports symbols locals events' (next value)) :
    Reports symbols locals (events ++ events') (result >>= next) := by
  refine first.bind fun value same => ?_
  rw [plain, List.append_nil]
  exact rest value same

theorem map {next : α → β} (first : Reports symbols locals events result) :
    Reports symbols locals events (result >>= fun value => .ok (next value)) := by
  have done := first.bind fun value _ => ok (next value)
  rwa [List.append_nil] at done

end Reports

@[simp]
theorem declaredBy_append : declaredBy (events ++ events') = declaredBy events ++ declaredBy events' :=
  List.flatMap_append

mutual

@[simp]
theorem Expr.declaredBy_events : ∀ expr : Expr, declaredBy expr.events = []
  | .int _ _ => rfl
  | .var _ => rfl
  | .call _ args _ => Expr.declaredBy_eventsOfAll args
  | .binary _ left right => by
    rw [Expr.events, declaredBy_append, left.declaredBy_events, right.declaredBy_events,
      List.append_nil]

@[simp]
theorem Expr.declaredBy_eventsOfAll : ∀ args : List Expr, declaredBy (Expr.eventsOfAll args) = []
  | [] => rfl
  | arg :: args => by
    rw [Expr.eventsOfAll, declaredBy_append, arg.declaredBy_events,
      Expr.declaredBy_eventsOfAll args, List.append_nil]

end

@[simp]
theorem Binding.declaredBy_declaration (binding : Binding) :
    declaredBy binding.declaration = [binding.name.name] := by
  rw [Binding.declaration, declaredBy_append, binding.value.declaredBy_events]
  rfl

@[simp]
theorem Binding.declaredBy_assignment (binding : Binding) : declaredBy binding.assignment = [] :=
  binding.value.declaredBy_events

mutual

/-- The events of a statement declare the locals that the statement declares. -/
theorem Stmt.declaredBy_events : ∀ (inLoop : Bool) (stmt : Stmt),
    declaredBy (stmt.events inLoop) = stmt.declared
  | _, .declare binding => binding.declaredBy_declaration
  | _, .assign binding => binding.declaredBy_assignment
  | _, .return value => value.declaredBy_events
  | _, .expr value => value.declaredBy_events
  | inLoop, .if _ body tail => by
    simp [Stmt.events, Stmt.declared, Stmt.declaredBy_eventsOfAll inLoop body,
      Tail.declaredBy_events inLoop tail]
  | _, .while _ body => by
    simp [Stmt.events, Stmt.declared, Stmt.declaredBy_eventsOfAll true body]
  | _, .for _ _ _ body => by
    simp [Stmt.events, Stmt.declared, Stmt.declaredBy_eventsOfAll true body]
  | _, .break _ => rfl
  | _, .continue _ => rfl

theorem Tail.declaredBy_events : ∀ (inLoop : Bool) (tail : Tail),
    declaredBy (tail.events inLoop) = tail.declared
  | _, .none => rfl
  | inLoop, .elseIf _ body tail => by
    simp [Tail.events, Tail.declared, Stmt.declaredBy_eventsOfAll inLoop body,
      Tail.declaredBy_events inLoop tail]
  | inLoop, .else body => Stmt.declaredBy_eventsOfAll inLoop body

theorem Stmt.declaredBy_eventsOfAll : ∀ (inLoop : Bool) (stmts : List Stmt),
    declaredBy (Stmt.eventsOfAll inLoop stmts) = Stmt.declaredAll stmts
  | _, [] => rfl
  | inLoop, stmt :: stmts => by
    rw [Stmt.eventsOfAll, declaredBy_append, Stmt.declaredBy_events inLoop stmt,
      Stmt.declaredBy_eventsOfAll inLoop stmts, Stmt.declaredAll]

end

theorem declareLocal_reports (name : Ident) :
    Reports symbols locals [.declare name] (declareLocal locals name) := by
  refine .one ?_
  unfold declareLocal Event.fault?
  by_cases reserved : isReserved name.name = true
  · simp [reserved, faultOf]
  · by_cases present : name.name ∈ locals <;> simp [reserved, present, faultOf]

theorem resolveVar_reports (name : Ident) :
    Reports symbols locals [.use name] (resolveVar symbols locals name) := by
  refine .one ?_
  unfold resolveVar Event.fault?
  cases found : locals.idxOf? name.name with
  | some slot =>
    have member : name.name ∈ locals := by
      by_contra absent
      rw [List.idxOf?_eq_none_iff.mpr absent] at found
      cases found
    simp [member, faultOf]
  | none =>
    have absent : name.name ∉ locals := List.idxOf?_eq_none_iff.mp found
    by_cases declared : name.name ∈ symbols.globals <;> simp [absent, declared, faultOf]

theorem faultOf_checkArity {callee : Ident} {span : Span} {expected count : Nat} :
    faultOf (checkArity callee span expected count) =
      if count = expected then none
      else some (.arityMismatch callee.name expected count span) := by
  unfold checkArity
  by_cases same : count = expected <;> simp [same, faultOf]

mutual

theorem resolveExpr_reports : ∀ expr : Expr,
    Reports symbols locals expr.events (resolveExpr symbols locals expr)
  | .int value _ => .ok (Scoped.Expr.int value)
  | .var name => (resolveVar_reports name).map
  | .call callee args span => by
    have arity : ∀ expected : Nat,
        (Event.call callee args.length span).fault? symbols locals =
          (if args.length = expected then none
            else some (.arityMismatch callee.name expected args.length span)) →
        Reports symbols locals [.call callee args.length span]
          (checkArity callee span expected args.length) := by
      intro expected same
      exact .one (faultOf_checkArity.trans same.symm)
    have behind := resolveArgs_reports args
    unfold resolveExpr Expr.events
    by_cases printer : callee.name = printName
    · rw [if_pos printer]
      refine (arity 1 (if_pos printer)).andThen rfl fun _ count => ?_
      have one : args.length = 1 := checkArity_eq_ok.mp count
      rw [← List.append_nil (Expr.eventsOfAll args)]
      refine behind.bind fun values settled => ?_
      obtain ⟨value, rfl⟩ := List.length_eq_one_iff.mp ((resolveArgs_length settled).trans one)
      exact .ok (Scoped.Expr.print value)
    · rw [if_neg printer]
      cases found : symbols.functions.lookup callee.name with
      | none =>
        refine .stop ?_
        rw [Event.fault?, if_neg printer, found]
      | some expected =>
        refine (arity expected ?_).andThen rfl fun _ count => behind.map
        rw [Event.fault?, if_neg printer, found]
  | .binary _ left right =>
    (resolveExpr_reports left).andThen left.declaredBy_events fun _ _ =>
      (resolveExpr_reports right).map

theorem resolveArgs_reports : ∀ args : List Expr,
    Reports symbols locals (Expr.eventsOfAll args) (resolveArgs symbols locals args)
  | [] => .ok []
  | arg :: args =>
    (resolveExpr_reports arg).andThen arg.declaredBy_events fun _ _ =>
      (resolveArgs_reports args).map

end

theorem resolveDeclaration_reports (binding : Binding) :
    Reports symbols locals binding.declaration (resolveDeclaration symbols locals binding) :=
  (resolveExpr_reports binding.value).andThen binding.value.declaredBy_events fun _ _ =>
    (declareLocal_reports binding.name).map

theorem resolveDeclaration_after {binding : Binding} {slot : Nat} {value : Scoped.Expr}
    {after : Locals}
    (settled : resolveDeclaration symbols locals binding = .ok (slot, value, after)) :
    after = locals ++ declaredBy binding.declaration := by
  obtain ⟨_, _, declared⟩ := resolveDeclaration_eq_ok.mp settled
  rw [binding.declaredBy_declaration]
  exact (declareLocal_eq_ok.mp declared).2.2.symm

theorem resolveAssignment_reports (binding : Binding) :
    Reports symbols locals binding.assignment (resolveAssignment symbols locals binding) :=
  (resolveVar_reports binding.name).andThen rfl fun _ _ =>
    (resolveExpr_reports binding.value).map

mutual

theorem resolveStmt_reports : ∀ (inLoop : Bool) (locals : Locals) (stmt : Stmt),
    Reports symbols locals (stmt.events inLoop) (resolveStmt symbols inLoop locals stmt)
  | _, _, .declare binding => (resolveDeclaration_reports binding).map
  | _, _, .assign binding => (resolveAssignment_reports binding).map
  | _, _, .return value => (resolveExpr_reports value).map
  | _, _, .expr value => (resolveExpr_reports value).map
  | inLoop, locals, .if condition body tail => by
    refine (resolveExpr_reports condition).andThen condition.declaredBy_events fun _ _ => ?_
    refine (resolveStmts_reports inLoop locals body).bind fun (_, middle) settled => ?_
    rw [Stmt.declaredBy_eventsOfAll, ← resolveStmts_after settled]
    exact (resolveTail_reports inLoop middle tail).map
  | _, locals, .while condition body =>
    (resolveExpr_reports condition).andThen condition.declaredBy_events fun _ _ =>
      (resolveStmts_reports true locals body).map
  | _, locals, .for init condition update body => by
    refine (resolveDeclaration_reports init).bind fun (_, _, inside) settled => ?_
    rw [← resolveDeclaration_after settled]
    refine (resolveExpr_reports condition).andThen condition.declaredBy_events fun _ _ => ?_
    refine (resolveStmts_reports true inside body).bind fun (_, behind) settled => ?_
    rw [Stmt.declaredBy_eventsOfAll, ← resolveStmts_after settled]
    exact (resolveAssignment_reports update).map
  | inLoop, locals, .break span => by
    refine .one ?_
    cases inLoop <;> rfl
  | inLoop, locals, .continue span => by
    refine .one ?_
    cases inLoop <;> rfl

theorem resolveTail_reports : ∀ (inLoop : Bool) (locals : Locals) (tail : Tail),
    Reports symbols locals (tail.events inLoop) (resolveTail symbols inLoop locals tail)
  | _, locals, .none => .ok (Scoped.Tail.none, locals)
  | inLoop, locals, .elseIf condition body tail => by
    refine (resolveExpr_reports condition).andThen condition.declaredBy_events fun _ _ => ?_
    refine (resolveStmts_reports inLoop locals body).bind fun (_, middle) settled => ?_
    rw [Stmt.declaredBy_eventsOfAll, ← resolveStmts_after settled]
    exact (resolveTail_reports inLoop middle tail).map
  | inLoop, locals, .else body => (resolveStmts_reports inLoop locals body).map

theorem resolveStmts_reports : ∀ (inLoop : Bool) (locals : Locals) (stmts : List Stmt),
    Reports symbols locals (Stmt.eventsOfAll inLoop stmts)
      (resolveStmts symbols inLoop locals stmts)
  | _, locals, [] => .ok ([], locals)
  | inLoop, locals, stmt :: stmts => by
    refine (resolveStmt_reports inLoop locals stmt).bind fun (_, middle) settled => ?_
    rw [Stmt.declaredBy_events, ← resolveStmt_after settled]
    exact (resolveStmts_reports inLoop middle stmts).map

end

theorem declareParams_reports (params : List Ident) :
    Reports symbols locals (params.map .declare) (declareParams locals params) := by
  induction params generalizing locals with
  | nil => exact .ok locals
  | cons param params ih =>
    have others : ∀ middle, declareLocal locals param = .ok middle →
        Reports symbols (locals ++ [param.name]) (params.map .declare)
          (declareParams middle params) := by
      intro middle declared
      obtain ⟨_, _, rfl⟩ := declareLocal_eq_ok.mp declared
      exact ih
    exact (declareLocal_reports param).bind others

theorem declaredBy_params (params : List Ident) :
    declaredBy (params.map .declare) = params.map Ident.name := by
  induction params with
  | nil => rfl
  | cons param params ih => exact congrArg (param.name :: ·) ih

theorem resolveFunction_reports (function : Function) :
    Reports symbols [] function.events (resolveFunction symbols function) := by
  refine (declareParams_reports function.params).bind fun locals declared => ?_
  obtain ⟨rfl, _⟩ := declareParams_sound declared List.nodup_nil
  rw [declaredBy_params]
  exact (resolveStmts_reports false _ function.body).map

theorem resolveGlobal_reports (binding : Binding) :
    Reports symbols [] binding.value.events (resolveGlobal symbols binding) :=
  (resolveExpr_reports binding.value).map

/-- Goes on if there is no fault. -/
def unlessFault {α : Type} (fault? : Option LowerError) (rest : Except LowerError α) :
    Except LowerError α :=
  match fault? with
  | some error => .error error
  | none => rest

theorem faultOf_unlessFault {α : Type} {fault? : Option LowerError} {rest : Except LowerError α}
    {faults : List LowerError} (behind : faultOf rest = faults.head?) :
    faultOf (unlessFault fault? rest) = (fault?.toList ++ faults).head? := by
  cases fault? with
  | none => exact behind
  | some error => rfl

theorem declareFunctions_eq_unlessFault {known : List (String × Nat)} {function : Function}
    {functions : List Function} :
    declareFunctions known (function :: functions) =
      unlessFault (functionFault? (known.map Prod.fst) function.name)
        (declareFunctions (known ++ [(function.name.name, function.arity)]) functions) := by
  have runtime : isRuntimeSymbol function.name.name = true ↔
      function.name.name = entryName ∨ function.name.name = printerName := by
    simp [isRuntimeSymbol]
  simp only [declareFunctions, functionFault?, lookup_isSome_iff_mem, runtime]
  split_ifs <;> rfl

theorem declareGlobals_eq_unlessFault {functions : List (String × Nat)} {known : List String}
    {binding : Binding} {bindings : List Binding} :
    declareGlobals functions known (binding :: bindings) =
      unlessFault (globalFault? (functions.map Prod.fst) known binding.name)
        (declareGlobals functions (known ++ [binding.name.name]) bindings) := by
  have taken : (isRuntimeSymbol binding.name.name ||
      (functions.lookup binding.name.name).isSome) = true ↔
      binding.name.name = entryName ∨ binding.name.name = printerName ∨
        binding.name.name ∈ functions.map Prod.fst := by
    rw [Bool.or_eq_true, lookup_isSome_iff_mem]
    simp [isRuntimeSymbol, or_assoc]
  have listed : known.contains binding.name.name = true ↔ binding.name.name ∈ known :=
    List.contains_iff_mem
  simp only [declareGlobals, globalFault?, taken, listed]
  split_ifs <;> rfl

theorem faultOf_declareFunctions (known : List (String × Nat)) (functions : List Function) :
    faultOf (declareFunctions known functions) =
      (faultsAlong (fun name => [name.name]) functionFault? (known.map Prod.fst)
        (functions.map (·.name))).head? := by
  induction functions generalizing known with
  | nil => rfl
  | cons function functions ih =>
    rw [declareFunctions_eq_unlessFault]
    refine faultOf_unlessFault ?_
    rw [ih, List.map_append]
    rfl

theorem faultOf_declareGlobals (functions : List (String × Nat)) (known : List String)
    (bindings : List Binding) :
    faultOf (declareGlobals functions known bindings) =
      (faultsAlong (fun name => [name.name]) (globalFault? (functions.map Prod.fst)) known
        (bindings.map (·.name))).head? := by
  induction bindings generalizing known with
  | nil => rfl
  | cons binding bindings ih =>
    rw [declareGlobals_eq_unlessFault]
    exact faultOf_unlessFault (ih _)

/-- Settling a program stops at its first fault. -/
theorem faultOf_resolve (program : Program) : faultOf (resolve program) = program.faults.head? := by
  unfold resolve Program.faults
  cases found : program.main with
  | none => rfl
  | some main =>
    have bodies : program.bodies.flatMap (bodyFaults program.symbols []) =
        program.globals.flatMap (fun binding => bodyFaults program.symbols [] binding.value.events) ++
          (bodyFaults program.symbols [] (Stmt.eventsOfAll false main.body) ++
            program.functions.flatMap fun function =>
              bodyFaults program.symbols [] function.events) := by
      simp [Program.bodies, found, List.flatMap_map]
    rw [bodies, Program.nameFaults, List.append_assoc, Option.isSome_some, if_pos rfl,
      List.nil_append]
    refine faultOf_bind (faultOf_declareFunctions [] program.functions) fun functions declared => ?_
    obtain ⟨rfl, _⟩ := declareFunctions_sound declared List.nodup_nil
    refine faultOf_bind ?_ fun globals others => ?_
    · rw [faultOf_declareGlobals]
      simp [Function.comp_def]
    · obtain rfl := declareGlobals_sound others
      refine faultOf_bind (faultOf_mapM resolveGlobal_reports _) fun _ _ => ?_
      refine faultOf_bind (resolveStmts_reports false [] main.body) fun _ _ => ?_
      rw [← List.append_nil (program.functions.flatMap _)]
      exact faultOf_bind (faultOf_mapM resolveFunction_reports _) fun _ _ => rfl

end OliCompiler
