import OliCompiler.Lower
import OliCompiler.Proofs.Scope.Resolution

/-!
Functions are lowered one by one, and nothing of one reaches the next: what an action of the lowering
does is the same whatever stands in the module so far, and a function starts with a fresh builder.
-/

namespace OliCompiler

namespace Ir.Builder

/-- What a builder has made, put behind a module with its globals. -/
def onto (builder base : Builder Nat) : Builder Nat :=
  { builder with
    name := base.name
    globals := base.globals
    functions := base.functions ++ builder.functions }

variable {builder base : Builder Nat}

theorem startBlock_onto (id : BlockId) :
    (builder.onto base).startBlock id = (builder.startBlock id).onto base := by
  have pending : (builder.onto base).pending = builder.pending := rfl
  unfold startBlock
  rw [pending]
  cases builder.pending.lookup id <;> rfl

theorem finishFunction_onto :
    (builder.onto base).finishFunction = builder.finishFunction.onto base := by
  simp [finishFunction, onto]

/-- A function is started alike behind any module with no function in progress. -/
theorem startFunction_onto (idle : base.draft = none) (origin name : String) (arity : Nat) :
    base.startFunction name arity =
      (((empty origin : Builder Nat).startFunction name arity).1,
        ((empty origin).startFunction name arity).2.onto base) := by
  simp [startFunction, finishFunction, idle, createBlock, freshBlock, startBlock, mapDraft, empty, onto]

end Ir.Builder

namespace Lower

open Ir

/-- Whether an action does the same whatever stands in the module so far. -/
def Independent {α : Type} (action : Build α) : Prop :=
  ∀ base builder, action.run (builder.onto base) =
    ((action.run builder).1, (action.run builder).2.onto base)

section

variable {α β : Type}

theorem independent_pure (value : α) : Independent (pure value) := fun _ _ => rfl

theorem Independent.bind {first : Build α} {next : α → Build β} (one : Independent first)
    (rest : ∀ value, Independent (next value)) : Independent (first >>= next) := by
  intro base builder
  rw [StateT.run_bind, StateT.run_bind, one base builder]
  exact rest _ base _

end

variable {block : BlockId}

theorem append_independent (block : BlockId) (op : Op) : Independent (append block op) :=
  fun _ _ => rfl

theorem store_independent (block : BlockId) (address value : Operand) :
    Independent (store block address value) := fun _ _ => rfl

theorem terminate_independent (block : BlockId) (terminator : Terminator) :
    Independent (terminate block terminator) := fun _ _ => rfl

theorem create_independent (hint : String) : Independent (create hint) := fun _ _ => rfl

theorem start_independent (block : BlockId) : Independent (start block) :=
  fun _ _ => congrArg (Prod.mk ()) (Builder.startBlock_onto block)

theorem newSlot_independent : Independent newSlot := fun _ _ => rfl

theorem address_independent (var : Scoped.Var) : Independent (address var) := by
  cases var with
  | «local» slot => exact fun _ _ => rfl
  | global name => exact independent_pure _

theorem asWord_independent (block : BlockId) (result : Result) :
    Independent (asWord block result) := by
  cases result with
  | word operand => exact independent_pure _
  | truth operand => exact append_independent block _

theorem asTruth_independent (block : BlockId) (result : Result) :
    Independent (asTruth block result) := by
  cases result with
  | word operand => exact append_independent block _
  | truth operand => exact independent_pure _

mutual

theorem expr_independent (block : BlockId) : ∀ value : Scoped.Expr, Independent (expr block value)
  | .int _ => independent_pure _
  | .var var =>
    (address_independent var).bind fun _ => (append_independent block _).bind fun _ =>
      independent_pure _
  | .print value =>
    (expr_independent block value).bind fun result => (asWord_independent block result).bind fun _ =>
      (append_independent block _).bind fun _ => independent_pure _
  | .call _ args =>
    (words_independent block args).bind fun _ => (append_independent block _).bind fun _ =>
      independent_pure _
  | .binary (.arith _) left right =>
    (expr_independent block left).bind fun a => (asWord_independent block a).bind fun _ =>
      (expr_independent block right).bind fun b => (asWord_independent block b).bind fun _ =>
        (append_independent block _).bind fun _ => independent_pure _
  | .binary (.compare _) left right =>
    (expr_independent block left).bind fun a => (asWord_independent block a).bind fun _ =>
      (expr_independent block right).bind fun b => (asWord_independent block b).bind fun _ =>
        (append_independent block _).bind fun _ => independent_pure _

theorem words_independent (block : BlockId) :
    ∀ values : List Scoped.Expr, Independent (words block values)
  | [] => independent_pure _
  | value :: values =>
    (expr_independent block value).bind fun result => (asWord_independent block result).bind fun _ =>
      (words_independent block values).bind fun _ => independent_pure _

end

theorem word_independent (block : BlockId) (value : Scoped.Expr) : Independent (word block value) :=
  (expr_independent block value).bind fun result => asWord_independent block result

theorem truth_independent (block : BlockId) (value : Scoped.Expr) :
    Independent (truth block value) :=
  (expr_independent block value).bind fun result => asTruth_independent block result

theorem declare_independent (block : BlockId) (value : Scoped.Expr) :
    Independent (declare block value) :=
  (word_independent block value).bind fun _ => newSlot_independent.bind fun _ =>
    store_independent block _ _

theorem assign_independent (block : BlockId) (var : Scoped.Var) (value : Scoped.Expr) :
    Independent (assign block var value) :=
  (address_independent var).bind fun _ => (word_independent block value).bind fun _ =>
    store_independent block _ _

theorem join_independent (target : BlockId) (flow : Flow) : Independent (join target flow) := by
  cases flow with
  | falls block => exact (terminate_independent block _).bind fun _ => independent_pure _
  | leaves => exact independent_pure _

theorem leave_independent (block : BlockId) (target : Option BlockId) :
    Independent (leave block target) := by
  cases target with
  | some target => exact (terminate_independent block _).bind fun _ => independent_pure _
  | none => exact (independent_pure _).bind fun _ => independent_pure _

theorem arms_independent {first : BlockId → Build Flow} {second : BlockId → Build Bool}
    (merge block : BlockId) (condition : Scoped.Expr) (one : ∀ block, Independent (first block))
    (other : ∀ block, Independent (second block)) :
    Independent (arms merge block condition first second) := by
  refine (truth_independent block condition).bind fun test => ?_
  refine (create_independent "if.then").bind fun yes => ?_
  refine (create_independent "if.else").bind fun no => ?_
  refine (terminate_independent block (.branch test yes no)).bind fun _ => ?_
  refine (start_independent yes).bind fun _ => (one yes).bind fun flow => ?_
  refine (join_independent merge flow).bind fun reached => ?_
  exact (start_independent no).bind fun _ => (other no).bind fun _ => independent_pure _

theorem if_independent {body : List Scoped.Stmt} {rest : Scoped.Tail} (targets : Option Targets)
    (block : BlockId) (condition : Scoped.Expr)
    (inside : ∀ flow, Independent (stmts targets flow body))
    (others : ∀ merge block, Independent (tail targets merge block rest)) :
    Independent (stmt targets block (.if condition body rest)) := by
  refine (create_independent "if.end").bind fun merge => ?_
  refine (arms_independent merge block condition (fun yes => inside (.falls yes))
    (others merge)).bind fun reached => ?_
  refine (start_independent merge).bind fun _ => ?_
  cases reached with
  | true => exact independent_pure _
  | false => exact (terminate_independent merge .unreachable).bind fun _ => independent_pure _

theorem while_independent {body : List Scoped.Stmt} (targets : Option Targets) (block : BlockId)
    (condition : Scoped.Expr) (inside : ∀ targets flow, Independent (stmts targets flow body)) :
    Independent (stmt targets block (.while condition body)) := by
  refine (create_independent "while.cond").bind fun head => ?_
  refine (create_independent "while.body").bind fun inner => ?_
  refine (create_independent "while.end").bind fun exit => ?_
  refine (terminate_independent block (.jump head)).bind fun _ => ?_
  refine (start_independent head).bind fun _ => (truth_independent head condition).bind fun test => ?_
  refine (terminate_independent head (.branch test inner exit)).bind fun _ => ?_
  refine (start_independent inner).bind fun _ => ?_
  refine (inside (some ⟨exit, head⟩) (.falls inner)).bind fun flow => ?_
  refine (join_independent head flow).bind fun _ => ?_
  exact (start_independent exit).bind fun _ => independent_pure _

theorem for_independent {body : List Scoped.Stmt} (targets : Option Targets) (block : BlockId)
    (slot : Nat) (init condition : Scoped.Expr) (var : Scoped.Var) (update : Scoped.Expr)
    (inside : ∀ targets flow, Independent (stmts targets flow body)) :
    Independent (stmt targets block (.for slot init condition var update body)) := by
  refine (declare_independent block init).bind fun _ => ?_
  refine (create_independent "for.cond").bind fun head => ?_
  refine (create_independent "for.body").bind fun inner => ?_
  refine (create_independent "for.iter").bind fun next => ?_
  refine (create_independent "for.end").bind fun exit => ?_
  refine (terminate_independent block (.jump head)).bind fun _ => ?_
  refine (start_independent head).bind fun _ => (truth_independent head condition).bind fun test => ?_
  refine (terminate_independent head (.branch test inner exit)).bind fun _ => ?_
  refine (start_independent inner).bind fun _ => ?_
  refine (inside (some ⟨exit, next⟩) (.falls inner)).bind fun flow => ?_
  refine (join_independent next flow).bind fun _ => (start_independent next).bind fun _ => ?_
  refine (assign_independent next var update).bind fun _ => ?_
  refine (terminate_independent next (.jump head)).bind fun _ => ?_
  exact (start_independent exit).bind fun _ => independent_pure _

mutual

theorem stmt_independent : ∀ (statement : Scoped.Stmt) (targets : Option Targets) (block : BlockId),
    Independent (stmt targets block statement)
  | .declare _ value, _, block => (declare_independent block value).bind fun _ => independent_pure _
  | .assign var value, _, block =>
    (assign_independent block var value).bind fun _ => independent_pure _
  | .return value, _, block =>
    (word_independent block value).bind fun operand =>
      (terminate_independent block (.ret operand)).bind fun _ => independent_pure _
  | .expr value, _, block => (expr_independent block value).bind fun _ => independent_pure _
  | .if condition body rest, targets, block =>
    if_independent targets block condition (stmts_independent body targets)
      (tail_independent rest targets)
  | .while condition body, targets, block =>
    while_independent targets block condition (stmts_independent body)
  | .for slot init condition var update body, targets, block =>
    for_independent targets block slot init condition var update (stmts_independent body)
  | .break, _, block => leave_independent block _
  | .continue, _, block => leave_independent block _

theorem tail_independent : ∀ (rest : Scoped.Tail) (targets : Option Targets) (merge block : BlockId),
    Independent (tail targets merge block rest)
  | .none, _, merge, block =>
    (terminate_independent block (.jump merge)).bind fun _ => independent_pure _
  | .elseIf condition body rest, targets, merge, block =>
    arms_independent merge block condition (fun yes => stmts_independent body targets (.falls yes))
      (tail_independent rest targets merge)
  | .else body, targets, merge, block =>
    (stmts_independent body targets (.falls block)).bind fun flow => join_independent merge flow

theorem stmts_independent : ∀ (body : List Scoped.Stmt) (targets : Option Targets) (flow : Flow),
    Independent (stmts targets flow body)
  | [], _, _ => independent_pure _
  | first :: rest, targets, flow => by
    have behind : ∀ block, Independent (do stmts targets (← stmt targets block first) rest) :=
      fun block => (stmt_independent first targets block).bind (stmts_independent rest targets)
    cases flow with
    | falls block => exact (independent_pure block).bind behind
    | leaves =>
      exact (create_independent "dead").bind fun dead => (start_independent dead).bind fun _ =>
        (independent_pure dead).bind behind

end

theorem params_independent (block : BlockId) (regs : List Reg) : Independent (params block regs) := by
  induction regs with
  | nil => exact independent_pure _
  | cons reg regs ih =>
    exact newSlot_independent.bind fun address =>
      (store_independent block address (.reg reg)).bind fun _ => ih

theorem finish_onto {builder base : Builder Nat} (name : String) (flow : Flow) :
    finish name flow (builder.onto base) = (finish name flow builder).map (·.onto base) := by
  have closed : ∀ builder : Builder Nat, finish name .leaves (builder.onto base) =
      (finish name .leaves builder).map (·.onto base) := by
    intro builder
    have same : (builder.onto base).unterminated? = builder.unterminated? := rfl
    simp only [finish, same, Builder.finishFunction_onto]
    cases builder.unterminated? <;> rfl
  cases flow with
  | falls block => exact closed (builder.terminate block (.ret (.int 0)))
  | leaves => exact closed builder

/-- A function is lowered behind any module as it is alone. -/
theorem function_onto {base : Builder Nat} (idle : base.draft = none) (function : Scoped.Function) :
    Lower.function base function =
      (Lower.function (.empty entryName) function).map (·.onto base) := by
  have body : ∀ regs entry, Independent (do
      params entry regs
      stmts none (.falls entry) function.body) :=
    fun regs entry => (params_independent entry regs).bind fun _ =>
      stmts_independent function.body none (.falls entry)
  unfold Lower.function
  rw [Builder.startFunction_onto idle entryName]
  dsimp only
  rw [body]
  exact finish_onto function.name _

/-- The function that a scoped function is lowered to, alone in a list, if it is lowered. -/
def lowered (function : Scoped.Function) : List Ir.Function :=
  match Lower.function (.empty entryName) function with
  | .ok builder => builder.functions
  | .error _ => []

theorem finish_idle {name : String} {flow : Flow} {builder builder' : Builder Nat}
    (finished : finish name flow builder = .ok builder') : builder'.draft = none := by
  have closed : ∀ builder : Builder Nat, finish name .leaves builder = .ok builder' →
      builder'.draft = none := by
    intro builder finished
    unfold finish at finished
    cases left : builder.unterminated? with
    | some block =>
      simp only [left] at finished
      cases finished
    | none =>
      simp only [left] at finished
      cases finished
      rfl
  cases flow with
  | falls block => exact closed (builder.terminate block (.ret (.int 0))) finished
  | leaves => exact closed builder finished

/-- Functions stand in a module as each of them is lowered. -/
theorem functions_lowered {functions : List Scoped.Function} {builder builder' : Builder Nat}
    (idle : builder.draft = none) (done : functions.foldlM Lower.function builder = .ok builder') :
    builder'.functions = builder.functions ++ functions.flatMap lowered ∧
      builder'.globals = builder.globals ∧ builder'.draft = none := by
  induction functions generalizing builder with
  | nil =>
    cases done
    exact ⟨by simp, rfl, idle⟩
  | cons function functions ih =>
    obtain ⟨middle, first, rest⟩ := bind_eq_ok.mp done
    rw [function_onto idle] at first
    cases alone : Lower.function (.empty entryName) function with
    | error error =>
      rw [alone] at first
      cases first
    | ok made =>
      rw [alone] at first
      cases first
      have idle : made.draft = none := finish_idle alone
      have behind : (made.onto builder).draft = none := idle
      obtain ⟨listed, globals, idle⟩ := ih behind rest
      refine ⟨?_, globals, idle⟩
      rw [listed, List.flatMap_cons, lowered, alone]
      exact List.append_assoc _ _ _

theorem finish_functions {builder : Builder Nat} (idle : builder.draft = none) :
    builder.finish.functions = builder.functions := by
  simp [Builder.finish, Builder.finishFunction, idle]

/-- The module of a program whose functions stand in another order has the same globals, and the same
functions in another order. -/
theorem program_perm {globals : List (String × Scoped.Expr)} {main : List Scoped.Stmt}
    {functions functions' : List Scoped.Function} {module module' : Module}
    (permuted : functions'.Perm functions)
    (one : Lower.program ⟨globals, main, functions⟩ = .ok module)
    (other : Lower.program ⟨globals, main, functions'⟩ = .ok module') :
    module'.globals = module.globals ∧ module'.functions.Perm module.functions := by
  obtain ⟨middle, entry, one⟩ := bind_eq_ok.mp one
  obtain ⟨middle', entry', other⟩ := bind_eq_ok.mp other
  obtain rfl : middle' = middle := Except.ok.inj (entry'.symm.trans entry)
  obtain ⟨last, made, finished⟩ := bind_eq_ok.mp one
  obtain ⟨last', made', finished'⟩ := bind_eq_ok.mp other
  cases pure_eq_ok.mp finished
  cases pure_eq_ok.mp finished'
  have idle : middle'.draft = none := finish_idle entry
  obtain ⟨listed, sameGlobals, lastIdle⟩ := functions_lowered idle made
  obtain ⟨listed', sameGlobals', lastIdle'⟩ := functions_lowered idle made'
  refine ⟨sameGlobals'.trans sameGlobals.symm, ?_⟩
  rw [finish_functions lastIdle, finish_functions lastIdle', listed, listed']
  exact (permuted.flatMap_right lowered).append_left _

end Lower

end OliCompiler
