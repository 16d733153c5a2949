import OliCompiler.Proofs.Execution.Steps

/-!
What a run prints. The text stands in the store, however the run ends: a call of the printer adds its text
to what is there, and no other step changes it.
-/

namespace OliCompiler.Machine

open Ir

section

variable {α β : Type}

/-- Whether all that a result can be has a property. -/
def Ensures (post : α → Prop) (result : Except Fault α) : Prop := ∀ value, result = .ok value → post value

namespace Ensures

variable {post : α → Prop} {result : Except Fault β} {next : β → Except Fault α}

theorem ok {value : α} (holds : post value) : Ensures post (.ok value) := by
  rintro _ ⟨⟩
  exact holds

theorem error (fault : Fault) : Ensures post (.error fault) := nofun

theorem bind (rest : ∀ value, result = .ok value → Ensures post (next value)) :
    Ensures post (result >>= next) := by
  cases result with
  | error fault => exact error fault
  | ok value => exact rest value rfl

end Ensures

end

/-- The text that a call prints: one of the printer, if that is external and the arguments fit the
format. -/
def callText (image : Image) (name : String) (args : List Value) : Option String :=
  if name = printerName ∧ (image.routine? name).any (·.function.external) = true then
    (printed image.module args).toOption
  else none

/-- The text that the next instruction prints, if it prints one. -/
def Config.text? (image : Image) (config : Config) : Option String :=
  match config.frame.todo with
  | ⟨_, .call callee args⟩ :: _ => (config.frame.operands args).toOption.bind (callText image callee)
  | _ => none

/-- The texts that a run of some steps at most prints, in order. -/
def printings (image : Image) (maxDepth : Nat) : Nat → Config → List String
  | 0, _ => []
  | steps + 1, config => (config.text? image).toList ++
    match config.step image maxDepth with
    | .ok (.running next) => printings image maxDepth steps next
    | _ => []

/-- The store in which a run of some steps at most ends, with a value, with a fault or for want of
steps. -/
def leftBy (image : Image) (maxDepth : Nat) : Nat → Config → Store
  | 0, config => config.store
  | steps + 1, config =>
    match config.step image maxDepth with
    | .ok (.running next) => leftBy image maxDepth steps next
    | .ok (.finished _ store) => store
    | .error _ => config.store

def Next.store : Next → Store
  | running config => config.store
  | finished _ store => store

variable {image : Image} {maxDepth depth : Nat} {store : Store} {config : Config} {name : String}
  {args : List Value}

theorem enter_output : Ensures
    (fun entered => entered.2.output = store.output ++ (callText image name args).getD "")
    (enter image maxDepth store depth name args) := by
  unfold enter callText
  cases image.routine? name with
  | none => exact .error _
  | some routine =>
    dsimp only [Option.any_some]
    by_cases external : routine.function.external = true
    · by_cases printer : name = printerName
      · rw [if_pos external, if_pos printer, if_pos ⟨printer, external⟩]
        refine .bind fun text fits => .ok ?_
        rw [fits]
        rfl
      · rw [if_pos external, if_neg printer]
        exact .error _
    · have silent : ¬(name = printerName ∧ routine.function.external = true) := fun both => external both.2
      rw [if_neg external, if_neg silent]
      split
      · exact .error _
      · split
        · exact .error _
        · split
          · exact .error _
          · exact .ok String.append_empty.symm

theorem callText_of_error {fault : Fault} (failed : enter image maxDepth store depth name args = .error fault) :
    callText image name args = none := by
  revert failed
  unfold enter callText
  cases image.routine? name with
  | none => exact fun _ => if_neg fun both => Bool.noConfusion both.2
  | some routine =>
    dsimp only [Option.any_some]
    intro failed
    split
    · rename_i both
      rw [if_pos both.2, if_pos both.1] at failed
      cases fits : printed image.module args with
      | ok text =>
        rw [fits] at failed
        cases failed
      | error => rfl
    · rfl

theorem set?_output {address : Address} {value : Int32} {store' : Store}
    (stored : store.set? address value = some store') : store'.output = store.output := by
  unfold Store.set? at stored
  cases address <;> dsimp only at stored <;> split at stored <;> cases stored <;> rfl

theorem text?_call {callee : String} {operands : List Operand} {result : Option Reg} {todo : List Instr}
    (next : config.frame.todo = ⟨result, .call callee operands⟩ :: todo)
    (computed : config.frame.operands operands = .ok args) :
    config.text? image = callText image callee args := by
  simp only [Config.text?, next, computed]
  rfl

/-- Only a call of the printer changes the text. -/
theorem execute_output {instr : Instr} {todo : List Instr} (next : config.frame.todo = instr :: todo) : Ensures
    (fun after => after.store.output = config.store.output ++ (config.text? image).getD "")
    (({ config with frame := config.frame.goOn todo } : Config).execute image maxDepth instr) := by
  obtain ⟨result, op⟩ := instr
  by_cases calls : ∃ callee operands, op = .call callee operands
  · obtain ⟨callee, operands, rfl⟩ := calls
    refine .bind fun values computed => .bind fun entered reached => ?_
    rw [Frame.operands_goOn] at computed
    have output := enter_output entered reached
    obtain ⟨entered, store⟩ := entered
    rw [text?_call next computed]
    cases entered with
    | returned value => exact .ok output
    | opened frame => exact .ok output
  · have silent : config.text? image = none := by
      unfold Config.text?
      rw [next]
      cases op with
      | call callee operands => exact absurd ⟨callee, operands, rfl⟩ calls
      | _ => rfl
    rw [silent, Option.getD_none, String.append_empty]
    cases op with
    | arith => exact .bind fun _ _ => .bind fun _ _ => .bind fun _ _ => .ok rfl
    | compare => exact .bind fun _ _ => .bind fun _ _ => .ok rfl
    | widen => exact .bind fun _ _ => .ok rfl
    | slot => exact .ok rfl
    | load pointer =>
      refine .bind fun address _ => ?_
      cases config.store.load? address with
      | some value => exact .ok rfl
      | none => exact .error _
    | store pointer value =>
      refine .bind fun address _ => .bind fun word _ => ?_
      cases stored : config.store.set? address word with
      | some store => exact .ok (set?_output stored)
      | none => exact .error _
    | call callee operands => exact absurd ⟨callee, operands, rfl⟩ calls

theorem terminate_output : Ensures (fun next => next.store.output = config.store.output) config.terminate := by
  unfold Config.terminate
  dsimp only
  cases config.frame.block.terminator with
  | none => exact .error _
  | some terminator =>
    cases terminator with
    | ret value =>
      refine .bind fun value _ => .ok ?_
      unfold Config.leave
      split <;> rfl
    | jump target => exact .bind fun _ _ => .ok rfl
    | branch condition yes no => exact .bind fun _ _ => .bind fun _ _ => .ok rfl
    | unreachable => exact .error _

/-- A step prints the text of its instruction. -/
theorem step_output : Ensures
    (fun next => next.store.output = config.store.output ++ (config.text? image).getD "")
    (config.step image maxDepth) := by
  cases next : config.frame.todo with
  | nil =>
    have silent : config.text? image = none := by rw [Config.text?, next]
    have here : config.step image maxDepth = config.terminate := by rw [Config.step, next]
    rw [silent, here, Option.getD_none, String.append_empty]
    exact terminate_output
  | cons instr todo =>
    have here : config.step image maxDepth =
        ({ config with frame := config.frame.goOn todo } : Config).execute image maxDepth instr >>=
          fun config => pure (.running config) := by
      rw [Config.step, next]
      rfl
    rw [here]
    exact .bind fun after executed => .ok (execute_output next after executed)

/-- A step that fails prints nothing. -/
theorem text?_of_error {fault : Fault} (failed : config.step image maxDepth = .error fault) :
    config.text? image = none := by
  unfold Config.text?
  split
  · rename_i result callee operands todo next
    cases computed : config.frame.operands operands with
    | error => rfl
    | ok values =>
      rw [step_call next computed] at failed
      cases reached : enter image maxDepth config.store (config.frame.depth + 1) callee values with
      | error fault => exact callText_of_error reached
      | ok entered =>
        rw [reached] at failed
        cases failed
  · rfl

theorem join_toList (text : Option String) : String.join text.toList = text.getD "" := by
  cases text with
  | none => rfl
  | some text => exact String.empty_append

/-- However a run ends, the text is then what was there before and all that was printed. -/
theorem leftBy_output (steps : Nat) (config : Config) : (leftBy image maxDepth steps config).output =
    config.store.output ++ String.join (printings image maxDepth steps config) := by
  induction steps generalizing config with
  | zero => exact String.append_empty.symm
  | succ steps ih =>
    unfold leftBy printings
    cases stepped : config.step image maxDepth with
    | error fault =>
      rw [text?_of_error stepped]
      exact String.append_empty.symm
    | ok next =>
      have output := step_output next stepped
      cases next with
      | running after =>
        dsimp only
        rw [ih after, String.join_append, ← String.append_assoc, join_toList, ← output]
        rfl
      | finished value store =>
        dsimp only
        rw [List.append_nil, join_toList, ← output]
        rfl

/-- The texts that a run of a module prints, in order. -/
def printingsOf (module : Module) (limits : Limits) : List String :=
  match enter (.ofModule module) limits.depth (.initial module) 0 entryName [] with
  | .ok (.opened frame, store) => printings (.ofModule module) limits.depth limits.steps ⟨frame, [], store⟩
  | _ => []

variable {limits : Limits} {execution : Execution}

theorem finish_output {value : Value} (finished : finish value store = .ok execution) :
    execution.output = store.output := by
  cases value with
  | int exitCode =>
    cases finished
    rfl
  | bool | ptr => cases finished

theorem runFrom_output {steps : Nat} (ran : runFrom image limits steps config = .ok execution) :
    execution.output = (leftBy image limits.depth steps config).output := by
  induction steps generalizing config with
  | zero => cases ran
  | succ steps ih =>
    unfold runFrom at ran
    unfold leftBy
    cases stepped : config.step image limits.depth with
    | error fault =>
      rw [stepped] at ran
      cases ran
    | ok next =>
      rw [stepped] at ran
      cases next with
      | running after => exact ih ran
      | finished value store => exact finish_output ran

/-- A run that gives a value gives all that was printed with it. -/
theorem run_output {module : Module} (ran : run module limits = .ok execution) :
    execution.output = String.join (printingsOf module limits) := by
  unfold run at ran
  unfold printingsOf
  dsimp only at ran
  cases entered : enter (.ofModule module) limits.depth (.initial module) 0 entryName [] with
  | error fault =>
    rw [entered] at ran
    cases ran
  | ok reached =>
    have silent : callText (.ofModule module) entryName [] = none := if_neg fun both => absurd both.1 (by decide)
    have output := enter_output reached entered
    rw [silent, Option.getD_none, String.append_empty] at output
    rw [entered] at ran
    obtain ⟨entry, store⟩ := reached
    cases entry with
    | returned value => exact (finish_output ran).trans output
    | opened frame =>
      refine (runFrom_output ran).trans ((leftBy_output _ _).trans ?_)
      rw [output]
      exact String.empty_append

end OliCompiler.Machine
