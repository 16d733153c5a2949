import OliCompiler.Machine

/-!
The limits of a run. Higher limits change an outcome only where a limit was the reason for it: the step
of a configuration is the same under a higher limit of calls unless it fails for that limit, and a run
that ends in time ends alike if it has more time.
-/

namespace OliCompiler.Machine

open Ir

section

variable {α β : Type} {depth depth' : Nat} {result deeper : Except Fault α}

/-- Whether a result is the same under another limit of calls, unless it fails for that limit. It never
fails for want of steps. -/
structure Deepens (depth depth' : Nat) (result deeper : Except Fault α) : Prop where
  same : (depth ≠ depth' ∧ result = .error (.depthLimit depth)) ∨ deeper = result
  timely : ∀ limit, result ≠ .error (.stepLimit limit)

namespace Deepens

theorem ok (value : α) : Deepens depth depth' (.ok value) (.ok value) := ⟨.inr rfl, by simp⟩

theorem error {fault : Fault} (timely : ∀ limit, fault ≠ .stepLimit limit) :
    Deepens depth depth' (.error fault : Except Fault α) (.error fault) :=
  ⟨.inr rfl, by simpa using timely⟩

theorem malformed (frame : Frame) (defect : Defect) :
    Deepens depth depth' (frame.malformed defect : Except Fault α) (frame.malformed defect) :=
  error (by simp)

/-- What stands behind a fault is not reached under either limit. -/
theorem stop {fault : Fault} {next : α → Except Fault β}
    (first : Deepens depth depth' (.error fault) deeper) :
    Deepens depth depth' (.error fault) (deeper >>= next) := by
  refine ⟨?_, fun limit failed => ?_⟩
  · rcases first.same with ⟨lower, failed⟩ | rfl
    · cases failed
      exact .inl ⟨lower, rfl⟩
    · exact .inr rfl
  · cases failed
    exact first.timely limit rfl

theorem eq_ok {value : α} (first : Deepens depth depth' (.ok value) deeper) :
    deeper = .ok value := by
  rcases first.same with ⟨_, failed⟩ | same
  · cases failed
  · exact same

/-- Under the same limit a result is the same. -/
theorem eq_of_level (first : Deepens depth depth result deeper) : deeper = result := by
  rcases first.same with ⟨different, _⟩ | same
  · exact absurd rfl different
  · exact same

theorem bind {next next' : α → Except Fault β} (first : Deepens depth depth' result deeper)
    (rest : ∀ value, Deepens depth depth' (next value) (next' value)) :
    Deepens depth depth' (result >>= next) (deeper >>= next') := by
  cases result with
  | error fault => exact first.stop
  | ok value =>
    rw [first.eq_ok]
    exact rest value

end Deepens

end

variable {depth depth' : Nat} {image : Image}

theorem operand_deepens (frame : Frame) (operand : Operand) :
    Deepens depth depth' (frame.operand operand) (frame.operand operand) := by
  unfold Frame.operand
  split
  · split
    · exact .ok _
    · exact .malformed frame _
  · exact .ok _
  · exact .ok _

theorem operands_deepens (frame : Frame) (operands : List Operand) :
    Deepens depth depth' (frame.operands operands) (frame.operands operands) := by
  induction operands with
  | nil => exact .ok _
  | cons operand operands ih =>
    exact (operand_deepens frame operand).bind fun _ => ih.bind fun _ => .ok _

theorem int_deepens (frame : Frame) (operand : Operand) :
    Deepens depth depth' (frame.int operand) (frame.int operand) := by
  refine (operand_deepens frame operand).bind fun value => ?_
  cases value with
  | int value => exact .ok value
  | bool | ptr => exact .malformed frame _

theorem bool_deepens (frame : Frame) (operand : Operand) :
    Deepens depth depth' (frame.bool operand) (frame.bool operand) := by
  refine (operand_deepens frame operand).bind fun value => ?_
  cases value with
  | bool value => exact .ok value
  | int | ptr => exact .malformed frame _

theorem ptr_deepens (frame : Frame) (operand : Operand) :
    Deepens depth depth' (frame.ptr operand) (frame.ptr operand) := by
  refine (operand_deepens frame operand).bind fun value => ?_
  cases value with
  | ptr address => exact .ok address
  | int | bool => exact .malformed frame _

theorem jump_deepens (frame : Frame) (id : BlockId) :
    Deepens depth depth' (frame.jump id) (frame.jump id) := by
  unfold Frame.jump
  split
  · exact .ok _
  · exact .malformed frame _

theorem arith_deepens (function : String) (op : Ir.ArithOp) (a b : Int32) :
    Deepens depth depth' (arith function op a b) (arith function op a b) := by
  cases op with
  | add | sub | mul => exact .ok _
  | sdiv =>
    unfold arith
    dsimp only
    split
    · exact .error (by simp)
    · split
      · exact .error (by simp)
      · exact .ok _

theorem printed_deepens (module : Module) (args : List Value) :
    Deepens depth depth' (printed module args) (printed module args) := by
  unfold printed
  dsimp only
  split
  · exact .ok _
  · exact .error (by simp)

/-- A call that is not too deep is entered alike under a higher limit. -/
theorem enter_deepens (deeper : depth ≤ depth') (store : Store) (level : Nat) (name : String)
    (args : List Value) :
    Deepens depth depth' (enter image depth store level name args)
      (enter image depth' store level name args) := by
  unfold enter
  cases image.routine? name with
  | none => exact .error (by simp)
  | some routine =>
    dsimp only
    by_cases external : routine.function.external = true
    · rw [if_pos external, if_pos external]
      split
      · exact (printed_deepens _ args).bind fun _ => .ok _
      · exact .error (by simp)
    · rw [if_neg external, if_neg external]
      by_cases shallow : level < depth
      · have shallow' : level < depth' := Nat.lt_of_lt_of_le shallow deeper
        rw [if_neg (Nat.not_le.mpr shallow), if_neg (Nat.not_le.mpr shallow')]
        split
        · exact .error (by simp)
        · split
          · exact .error (by simp)
          · exact .ok _
      · -- the limit is met, so the results differ only if the other limit is another one
        rw [if_pos (Nat.not_lt.mp shallow)]
        refine ⟨?_, by simp⟩
        by_cases same : depth = depth'
        · subst same
          rw [if_pos (Nat.not_lt.mp shallow)]
          exact .inr rfl
        · exact .inl ⟨same, rfl⟩

theorem execute_deepens (deeper : depth ≤ depth') (config : Config) (instr : Instr) :
    Deepens depth depth' (config.execute image depth instr) (config.execute image depth' instr) := by
  obtain ⟨frame, callers, store⟩ := config
  obtain ⟨result, op⟩ := instr
  cases op with
  | arith op left right =>
    exact (int_deepens frame left).bind fun a => (int_deepens frame right).bind fun b =>
      (arith_deepens _ op a b).bind fun _ => .ok _
  | compare op left right =>
    exact (int_deepens frame left).bind fun _ => (int_deepens frame right).bind fun _ => .ok _
  | widen value ty => exact (bool_deepens frame value).bind fun _ => .ok _
  | slot ty => exact .ok _
  | load pointer =>
    refine (ptr_deepens frame pointer).bind fun address => ?_
    cases store.load? address with
    | some value => exact .ok _
    | none => exact .malformed frame _
  | store pointer value =>
    refine (ptr_deepens frame pointer).bind fun address =>
      (int_deepens frame value).bind fun word => ?_
    cases store.set? address word with
    | some store => exact .ok _
    | none => exact .malformed frame _
  | call callee args =>
    refine (operands_deepens frame args).bind fun values =>
      (enter_deepens deeper store _ callee values).bind fun entered => ?_
    obtain ⟨entered, store⟩ := entered
    cases entered with
    | returned value => exact .ok _
    | opened frame => exact .ok _

theorem terminate_deepens (config : Config) :
    Deepens depth depth' config.terminate config.terminate := by
  unfold Config.terminate
  dsimp only
  cases config.frame.block.terminator with
  | none => exact .malformed config.frame _
  | some terminator =>
    cases terminator with
    | ret value => exact (operand_deepens config.frame value).bind fun _ => .ok _
    | jump target => exact (jump_deepens config.frame target).bind fun _ => .ok _
    | branch condition yes no =>
      exact (bool_deepens config.frame condition).bind fun _ =>
        (jump_deepens config.frame _).bind fun _ => .ok _
    | unreachable => exact .error (by simp)

/-- A step is the same under a higher limit of calls, unless it is a call that is too deep. -/
theorem step_deepens (deeper : depth ≤ depth') (config : Config) :
    Deepens depth depth' (config.step image depth) (config.step image depth') := by
  unfold Config.step
  cases config.frame.todo with
  | nil => exact terminate_deepens config
  | cons instr todo => exact (execute_deepens deeper _ instr).bind fun _ => .ok _

theorem finish_deepens (value : Value) (store : Store) :
    Deepens depth depth' (finish value store) (finish value store) := by
  cases value with
  | int exitCode => exact .ok _
  | bool | ptr => exact .error (by simp)

variable {limits limits' : Limits}

/-- A run of some steps has the same outcome with higher limits, unless a limit ended it. -/
theorem runFrom_deepens (deeper : limits.depth ≤ limits'.depth) {steps steps' : Nat}
    (more : steps ≤ steps') (config : Config) :
    runFrom image limits steps config = .error (.stepLimit limits.steps) ∨
      Deepens limits.depth limits'.depth (runFrom image limits steps config)
        (runFrom image limits' steps' config) := by
  induction steps generalizing steps' config with
  | zero => exact .inl rfl
  | succ steps ih =>
    obtain ⟨steps', rfl⟩ := Nat.exists_eq_add_one_of_ne_zero (show steps' ≠ 0 by omega)
    have stepped : Deepens limits.depth limits'.depth (config.step image limits.depth)
        (config.step image limits'.depth) := step_deepens deeper config
    unfold runFrom
    cases here : config.step image limits.depth with
    | error fault =>
      rw [here] at stepped
      exact .inr stepped.stop
    | ok next =>
      rw [here] at stepped
      rw [stepped.eq_ok]
      cases next with
      | running config => exact ih (Nat.le_of_succ_le_succ more) config
      | finished value store => exact .inr (finish_deepens value store)

/-- A run has the same outcome with higher limits, unless a limit ended it. -/
theorem run_deepens (module : Module) (limits limits' : Limits)
    (deeper : limits.depth ≤ limits'.depth) (more : limits.steps ≤ limits'.steps) :
    run module limits = .error (.stepLimit limits.steps) ∨
      Deepens limits.depth limits'.depth (run module limits) (run module limits') := by
  have entered := @enter_deepens _ _ (.ofModule module) deeper (.initial module) 0 entryName []
  unfold run
  dsimp only
  cases here : enter (.ofModule module) limits.depth (.initial module) 0 entryName [] with
  | error fault =>
    rw [here] at entered
    exact .inr entered.stop
  | ok value =>
    rw [here] at entered
    rw [entered.eq_ok]
    obtain ⟨entry, store⟩ := value
    cases entry with
    | returned value => exact .inr (finish_deepens value store)
    | opened frame => exact runFrom_deepens deeper more _

/-- More steps and more depth never change the outcome of a run that no limit ended. More steps change
no run that ended for its depth, and a run that lacks steps lacks them also if it has fewer. -/
theorem run_monotone (module : Module) {steps steps' depth depth' : Nat} (more : steps ≤ steps')
    (deeper : depth ≤ depth') :
    ((∀ limit, run module ⟨steps, depth⟩ ≠ .error (.stepLimit limit)) →
      (∀ limit, run module ⟨steps, depth⟩ ≠ .error (.depthLimit limit)) →
      run module ⟨steps', depth'⟩ = run module ⟨steps, depth⟩) ∧
    (∀ limit, run module ⟨steps, depth⟩ = .error (.depthLimit limit) →
      run module ⟨steps', depth⟩ = .error (.depthLimit limit)) ∧
    ∀ limit, run module ⟨steps', depth⟩ = .error (.stepLimit limit) →
      run module ⟨steps, depth⟩ = .error (.stepLimit steps) := by
  have longer : run module ⟨steps, depth⟩ = .error (.stepLimit steps) ∨
      Deepens depth depth (run module ⟨steps, depth⟩) (run module ⟨steps', depth⟩) :=
    run_deepens module ⟨steps, depth⟩ ⟨steps', depth⟩ (Nat.le_refl depth) more
  refine ⟨fun timely shallow => ?_, fun limit deep => ?_, fun limit late => ?_⟩
  · have both := run_deepens module ⟨steps, depth⟩ ⟨steps', depth'⟩ deeper more
    rcases both with late | deepens
    · exact absurd late (timely steps)
    · rcases deepens.same with ⟨_, deep⟩ | same
      · exact absurd deep (shallow depth)
      · exact same
  · rcases longer with late | deepens
    · rw [deep] at late
      cases late
    · exact deepens.eq_of_level.trans deep
  · rcases longer with early | deepens
    · exact early
    · exact absurd (deepens.eq_of_level.symm.trans late) (deepens.timely limit)

section

private def block (instrs : List Instr) (operand : Operand) : Block :=
  ⟨⟨0⟩, some "entry", instrs, some (.ret operand)⟩

private def plain (name : String) (blocks : List Block) : Ir.Function :=
  ⟨name, [], .i32, blocks, false, false⟩

/-- A module whose entry function calls another one, which returns seven. -/
def calling : Module where
  name := entryName
  globals := []
  functions := [
    plain entryName [block [⟨some ⟨0⟩, .call "seven" []⟩] (.reg ⟨0⟩)],
    plain "seven" [block [] (.int 7)]]

attribute [local simp] run enter Image.routine?_ofModule Module.function? calling plain entryName block
  Routine.ofFunction Function.entry? runFrom Config.step Config.execute Config.terminate Config.leave
  Frame.operands Frame.operand Frame.assign Store.initial Store.shrink finish bind Except.bind pure
  Except.pure

/-- Three steps and two calls are enough for the module, and nothing less is. -/
theorem run_monotone_calling :
    run calling ⟨100, 20⟩ = .ok ⟨7, ""⟩ ∧ run calling ⟨100, 1⟩ = .error (.depthLimit 1) ∧
      run calling ⟨1, 2⟩ = .error (.stepLimit 1) := by
  have finishes : run calling ⟨3, 2⟩ = .ok ⟨7, ""⟩ := by simp
  have deep : run calling ⟨1, 1⟩ = .error (.depthLimit 1) := by simp
  have late : run calling ⟨2, 2⟩ = .error (.stepLimit 2) := by simp
  refine ⟨?_, ?_, ?_⟩
  · rw [← finishes]
    exact (run_monotone calling (by decide) (by decide)).1 (by rw [finishes]; simp)
      (by rw [finishes]; simp)
  · exact (run_monotone calling (by decide) (Nat.le_refl 1)).2.1 1 deep
  · exact (run_monotone calling (by decide) (Nat.le_refl 2)).2.2 2 late

end

end OliCompiler.Machine
