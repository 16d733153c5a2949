import OliCompiler.Proofs.Correctness

/-!
Accepted programs do not go wrong. The evaluation of a well-scoped tree has only the faults of division
and of too many calls, and so a run of its module has only these and that it lacks steps.
-/

namespace OliCompiler

namespace Machine

/-- Whether a fault is one of division, or of more calls than a limit allows. -/
def Fault.Usual (depth : Nat) : Fault → Prop
  | divisionByZero _ | divisionOverflow _ => True
  | depthLimit limit => limit = depth
  | stepLimit _ | unknownFunction _ | unsupportedFormat _ | unreachable _ | malformed _ _ => False

/-- The outcomes that a run of an accepted program can have. -/
def Expected (limits : Limits) : Except Fault Execution → Prop
  | .ok _ => True
  | .error (.stepLimit limit) => limit = limits.steps
  | .error fault => fault.Usual limits.depth

theorem expected_of_usual {limits : Limits} {fault : Fault} (usual : fault.Usual limits.depth) :
    Expected limits (.error fault) := by
  cases fault with
  | stepLimit => cases usual
  | divisionByZero | divisionOverflow | depthLimit => exact usual
  | unknownFunction | unsupportedFormat | unreachable | malformed => cases usual

end Machine

namespace Evaluation

variable {α β σ : Type} {depth : Nat} {post : α → Prop} {post' : β → Prop}

/-- Whether an evaluation has only usual faults, and a property where it has a value. -/
def Sound (depth : Nat) (post : α → Prop) : Except Stop α → Prop
  | .ok value => post value
  | .error (.fault fault) => fault.Usual depth
  | .error .unset | .error .rounds => True

theorem Sound.bind {result : Except Stop α} {next : α → Except Stop β}
    (sound : Sound depth post result) (rest : ∀ value, post value → Sound depth post' (next value)) :
    Sound depth post' (result >>= next) := by
  match result, sound with
  | .ok value, holds => exact rest value holds
  | .error (.fault _), usual => exact usual
  | .error .unset, _ | .error .rounds, _ => trivial

theorem sound_pure (value : α) : Sound depth (fun _ => True) (pure value) := trivial

theorem sound_operate (function : String) (op : BinaryOp) (a b : Int32) :
    Sound depth (fun _ => True) (operate function op a b) := by
  cases op with
  | compare => trivial
  | arith op =>
    cases op with
    | add | sub | mul => trivial
    | div =>
      simp only [operate, calculate]
      split
      · trivial
      · split <;> trivial

theorem sound_fork {test : σ → Except Stop (Int32 × σ)} {yes no : σ → Except Stop (Exit × σ)}
    (tests : ∀ state, Sound depth (fun _ => True) (test state))
    (yeses : ∀ state, Sound depth (fun _ => True) (yes state))
    (noes : ∀ state, Sound depth (fun _ => True) (no state)) (state : σ) :
    Sound depth (fun _ => True) (do
      let (value, state) ← test state
      if value = 0 then no state else yes state) := by
  apply (tests state).bind
  intro result _
  by_cases zero : result.1 = 0
  · simpa only [zero, if_true] using noes result.2
  · simpa only [zero, if_false] using yeses result.2

theorem sound_loop {test : σ → Except Stop (Int32 × σ)} {body : σ → Except Stop (Exit × σ)}
    {update : σ → Except Stop σ} (tests : ∀ state, Sound depth (fun _ => True) (test state))
    (bodies : ∀ state, Sound depth (fun _ => True) (body state))
    (updates : ∀ state, Sound depth (fun _ => True) (update state)) {rounds : Nat} (state : σ) :
    Sound depth (fun _ => True) (loop test body update rounds state) := by
  induction rounds generalizing state with
  | zero => trivial
  | succ rounds ih =>
    apply (tests state).bind
    intro result _
    rcases result with ⟨value, state⟩
    dsimp only
    split
    · trivial
    · apply (bodies state).bind
      intro ended _
      rcases ended with ⟨exit, state⟩
      cases exit with
      | broke | returned => trivial
      | next | continued => exact (updates state).bind fun state _ => ih state

end Evaluation

namespace Scoped

open Evaluation

variable {rules : Rules} {calls : Calls} {function : String} {symbols : Symbols} {count depth : Nat}
  {locals : Nat → Option Int32}

/-- Whether calls that agree with the functions have only usual faults. -/
def SoundCalls (depth : Nat) (symbols : Symbols) (calls : Calls) : Prop :=
  ∀ ⦃callee : String⦄ ⦃args : List Int32⦄ ⦃world : World⦄, (callee, args.length) ∈ symbols.functions →
    Sound depth (fun _ => True) (calls callee args world)

theorem Var.sound_evaluate (var : Var) (world : World) :
    Sound depth (fun _ => True) (var.evaluate rules locals world) := by
  cases var with
  | global => trivial
  | «local» slot =>
    simp only [Var.evaluate]
    cases locals slot with
    | some value => trivial
    | none =>
      unfold Rules.read
      by_cases strict : rules.strict = true <;> simp [strict, Sound]

mutual

theorem Expr.sound_evaluate (sound : SoundCalls depth symbols calls) :
    ∀ (expr : Expr) (world : World), expr.InScope symbols count →
      Sound depth (fun _ => True) (expr.evaluate rules calls function locals world)
  | .int _, _, _ => trivial
  | .var place, world, _ => (place.sound_evaluate world).bind fun _ _ => trivial
  | .print value, world, settled =>
    (Expr.sound_evaluate sound value world settled).bind fun _ _ => trivial
  | .call callee args, world, settled => by
    apply (Expr.sound_evaluateAll sound args world settled.2).bind
    intro result same
    rcases result with ⟨values, world⟩
    exact sound (same ▸ settled.1)
  | .binary op left right, world, settled => by
    apply (Expr.sound_evaluate sound left world settled.1).bind
    intro result _
    rcases result with ⟨a, world⟩
    apply (Expr.sound_evaluate sound right world settled.2).bind
    intro result _
    rcases result with ⟨b, world⟩
    exact (sound_operate function op a b).bind fun _ _ => trivial

theorem Expr.sound_evaluateAll (sound : SoundCalls depth symbols calls) :
    ∀ (exprs : List Expr) (world : World), Expr.AllInScope symbols count exprs →
      Sound depth (fun result => result.1.length = exprs.length)
        (Expr.evaluateAll rules calls function locals exprs world)
  | [], _, _ => rfl
  | expr :: exprs, world, settled => by
    apply (Expr.sound_evaluate sound expr world settled.1).bind
    intro result _
    rcases result with ⟨value, world⟩
    apply (Expr.sound_evaluateAll sound exprs world settled.2).bind
    intro result same
    rcases result with ⟨values, world⟩
    exact congrArg (· + 1) same

end

theorem Expr.sound_evaluateIn (sound : SoundCalls depth symbols calls) {expr : Expr}
    (settled : expr.InScope symbols count) (state : State Nat) :
    Sound depth (fun _ => True) (expr.evaluateIn rules calls function state) :=
  (expr.sound_evaluate sound state.world settled).bind fun _ _ => trivial

theorem Var.sound_assign (sound : SoundCalls depth symbols calls) {var : Var} {value : Expr}
    (settled : value.InScope symbols count) (state : State Nat) :
    Sound depth (fun _ => True) (var.assign rules calls function value state) :=
  (Expr.sound_evaluateIn sound settled state).bind fun _ _ => trivial

mutual

theorem Stmt.sound_evaluate (sound : SoundCalls depth symbols calls) :
    ∀ (stmt : Stmt) {inLoop : Bool} {count : Nat} (state : State Nat),
      stmt.InScope symbols inLoop count →
      Sound depth (fun _ => True) (stmt.evaluate rules calls function state)
  | .declare _ _, _, _, state, settled =>
    (Var.sound_assign sound settled.2 state).bind fun _ _ => trivial
  | .assign _ _, _, _, state, settled =>
    (Var.sound_assign sound settled.2 state).bind fun _ _ => trivial
  | .return _, _, _, state, settled =>
    (Expr.sound_evaluateIn sound settled state).bind fun _ _ => trivial
  | .expr _, _, _, state, settled =>
    (Expr.sound_evaluateIn sound settled state).bind fun _ _ => trivial
  | .if _ body tail, _, _, state, settled =>
    sound_fork (Expr.sound_evaluateIn sound settled.1)
      (fun state => Stmt.sound_evaluateAll sound body state settled.2.1)
      (fun state => Tail.sound_evaluate sound tail state settled.2.2) state
  | .while _ body, _, _, state, settled =>
    sound_loop (Expr.sound_evaluateIn sound settled.1)
      (fun state => Stmt.sound_evaluateAll sound body state settled.2) sound_pure state
  | .for _ _ _ _ _ body, _, _, state, settled =>
    (Var.sound_assign sound settled.2.1 state).bind fun state _ =>
      sound_loop (Expr.sound_evaluateIn sound settled.2.2.1)
        (fun state => Stmt.sound_evaluateAll sound body state settled.2.2.2.1)
        (Var.sound_assign sound settled.2.2.2.2.2) state
  | .break, _, _, _, _ => trivial
  | .continue, _, _, _, _ => trivial

theorem Tail.sound_evaluate (sound : SoundCalls depth symbols calls) :
    ∀ (tail : Tail) {inLoop : Bool} {count : Nat} (state : State Nat),
      tail.InScope symbols inLoop count →
      Sound depth (fun _ => True) (tail.evaluate rules calls function state)
  | .none, _, _, _, _ => trivial
  | .elseIf _ body tail, _, _, state, settled =>
    sound_fork (Expr.sound_evaluateIn sound settled.1)
      (fun state => Stmt.sound_evaluateAll sound body state settled.2.1)
      (fun state => Tail.sound_evaluate sound tail state settled.2.2) state
  | .else body, _, _, state, settled => Stmt.sound_evaluateAll sound body state settled

theorem Stmt.sound_evaluateAll (sound : SoundCalls depth symbols calls) :
    ∀ (stmts : List Stmt) {inLoop : Bool} {count : Nat} (state : State Nat),
      Stmt.AllInScope symbols inLoop count stmts →
      Sound depth (fun _ => True) (Stmt.evaluateAll rules calls function stmts state)
  | [], _, _, _, _ => trivial
  | stmt :: stmts, _, _, state, settled => by
    apply (Stmt.sound_evaluate sound stmt state settled.1).bind
    intro ended _
    rcases ended with ⟨exit, state⟩
    cases exit with
    | next => exact Stmt.sound_evaluateAll sound stmts state settled.2
    | broke | continued | returned => trivial

end

theorem Stmt.sound_evaluateBody (sound : SoundCalls depth symbols calls) {body : List Stmt}
    (settled : Stmt.AllInScope symbols false count body) (args : List Int32) (world : World) :
    Sound depth (fun _ => True) (Stmt.evaluateBody rules calls function args body world) :=
  (Stmt.sound_evaluateAll sound body _ settled).bind fun _ _ => trivial

theorem Expr.sound_evaluateGlobals (sound : SoundCalls depth symbols calls)
    {globals : List (String × Expr)} (settled : ∀ global ∈ globals, global.2.InScope symbols 0)
    (world : World) :
    Sound depth (fun _ => True) (Expr.evaluateGlobals rules calls function globals world) := by
  induction globals generalizing world with
  | nil => trivial
  | cons global globals ih =>
    obtain ⟨first, others⟩ := List.forall_mem_cons.mp settled
    apply (Expr.sound_evaluate sound global.2 world first).bind
    intro result _
    rcases result with ⟨value, world⟩
    exact ih others _

variable {program : Program}

/-- Calls of the functions of a well-scoped program have only usual faults. -/
theorem Function.sound_evaluate (settled : program.WellScoped) (left : Nat) :
    SoundCalls rules.maxDepth program.symbols (Function.evaluate rules program.functions left) := by
  induction left with
  | zero => exact fun _ _ _ _ => rfl
  | succ left ih =>
    intro callee args world declared
    obtain ⟨function, member, same⟩ := List.mem_map.mp declared
    obtain ⟨rfl, arity⟩ := Prod.mk.inj same
    simp only [Function.evaluate, Lower.find?_function settled.names member, arity, if_true]
    exact Stmt.sound_evaluateBody ih (settled.functions function member) args world

/-- The evaluation of a well-scoped program has only usual faults. -/
theorem Program.sound_evaluate (settled : program.WellScoped) :
    Sound rules.maxDepth (fun _ => True) (program.evaluate rules) := by
  unfold Program.evaluate
  cases deep : rules.maxDepth with
  | zero => rfl
  | succ depth =>
    have sound := @Function.sound_evaluate rules program settled depth
    rw [deep] at sound
    apply (Expr.sound_evaluateGlobals sound settled.globals .initial).bind
    intro world _
    exact (Stmt.sound_evaluateBody sound settled.main [] world).bind fun _ _ => trivial

end Scoped

open Evaluation

/-- Every run of the module of an accepted program has an outcome that is expected. -/
theorem lower_safe {program : Program} {module : Ir.Module} (lowered : lower program = .ok module)
    (limits : Machine.Limits) : Machine.Expected limits (Machine.run module limits) := by
  obtain ⟨main, settled, _, resolved, wellScoped, _⟩ := Lower.lower_eq_ok lowered
  by_cases short : Machine.run module limits = .error (.stepLimit limits.steps)
  · rw [short]
    rfl
  · have evaluated := evaluate_of_run lowered rfl short
    have sound : Sound limits.depth (fun _ => True) _ :=
      @Scoped.Program.sound_evaluate ⟨limits.depth, limits.steps, false⟩ settled wellScoped
    rw [← resolve_evaluate resolved, evaluated] at sound
    cases outcome : Machine.run module limits with
    | ok execution => trivial
    | error fault =>
      rw [outcome] at sound
      exact Machine.expected_of_usual sound

theorem lower_safe_countdown : ∃ module, lower countdown = .ok module ∧
    Machine.Expected ⟨100, 2⟩ (Machine.run module ⟨100, 2⟩) := by
  obtain ⟨module, lowered⟩ := countdown_lowers
  exact ⟨module, lowered, lower_safe lowered ⟨100, 2⟩⟩

end OliCompiler
