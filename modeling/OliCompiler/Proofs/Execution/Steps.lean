import OliCompiler.Proofs.Execution.Tracking

/-!
One lemma for each instruction and terminator: the step that a configuration makes there when its
operands have values of the right kind.
-/

namespace OliCompiler.Machine

open Ir

variable {image : Image} {maxDepth : Nat} {config : Config} {todo : List Instr} {result : Option Reg}

/-- A frame in which the next instruction has been taken. -/
def Frame.goOn (frame : Frame) (todo : List Instr) : Frame := { frame with todo := todo }

@[simp]
theorem Frame.goOn_function {frame : Frame} : (frame.goOn todo).function = frame.function := rfl

theorem Frame.operands_goOn {frame : Frame} {operands : List Operand} :
    (frame.goOn todo).operands operands = frame.operands operands := by
  induction operands with
  | nil => rfl
  | cons operand operands ih =>
    simp only [Frame.operands, ih]
    rfl

section

variable {frame : Frame} {operand : Operand}

theorem Frame.int_eq {value : Int32} (found : frame.operand operand = .ok (.int value)) :
    frame.int operand = .ok value := by
  simp only [Frame.int, found]
  rfl

theorem Frame.bool_eq {value : Bool} (found : frame.operand operand = .ok (.bool value)) :
    frame.bool operand = .ok value := by
  simp only [Frame.bool, found]
  rfl

theorem Frame.ptr_eq {address : Address} (found : frame.operand operand = .ok (.ptr address)) :
    frame.ptr operand = .ok address := by
  simp only [Frame.ptr, found]
  rfl

end

theorem step_instr {instr : Instr} (next : config.frame.todo = instr :: todo) :
    config.step image maxDepth =
      (({ config with frame := config.frame.goOn todo } : Config).execute image maxDepth instr).map
        .running := by
  simp only [Config.step, next]
  rfl

theorem step_arith {op : ArithOp} {left right : Operand} {a b : Int32}
    (next : config.frame.todo = ⟨result, .arith op left right⟩ :: todo)
    (first : config.frame.operand left = .ok (.int a))
    (second : config.frame.operand right = .ok (.int b)) :
    config.step image maxDepth = (arith config.frame.function.name op a b).map fun value =>
      .running ⟨(config.frame.goOn todo).assign result (.int value), config.callers, config.store⟩ := by
  have one : (config.frame.goOn todo).int left = .ok a := Frame.int_eq first
  have two : (config.frame.goOn todo).int right = .ok b := Frame.int_eq second
  simp only [step_instr next, Config.execute, one, two, Frame.goOn_function, bind, Except.bind]
  cases arith config.frame.function.name op a b <;> rfl

theorem step_compare {op : Condition} {left right : Operand} {a b : Int32}
    (next : config.frame.todo = ⟨result, .compare op left right⟩ :: todo)
    (first : config.frame.operand left = .ok (.int a))
    (second : config.frame.operand right = .ok (.int b)) :
    config.step image maxDepth = .ok (.running
      ⟨(config.frame.goOn todo).assign result (.bool (op.holds a b)), config.callers, config.store⟩) := by
  have one : (config.frame.goOn todo).int left = .ok a := Frame.int_eq first
  have two : (config.frame.goOn todo).int right = .ok b := Frame.int_eq second
  simp only [step_instr next, Config.execute, one, two]
  rfl

theorem step_widen {ty : Ty} {operand : Operand} {value : Bool}
    (next : config.frame.todo = ⟨result, .widen operand ty⟩ :: todo)
    (found : config.frame.operand operand = .ok (.bool value)) :
    config.step image maxDepth = .ok (.running
      ⟨(config.frame.goOn todo).assign result (.int (if value then 1 else 0)), config.callers,
        config.store⟩) := by
  have one : (config.frame.goOn todo).bool operand = .ok value := Frame.bool_eq found
  simp only [step_instr next, Config.execute, one]
  rfl

theorem step_slot {ty : Ty} (next : config.frame.todo = ⟨result, .slot ty⟩ :: todo) :
    config.step image maxDepth = .ok (.running
      ⟨(config.frame.goOn todo).assign result (.ptr (.stack config.store.stack.size)),
        config.callers, config.store.push.2⟩) := by
  rw [step_instr next]
  rfl

theorem step_load {pointer : Operand} {address : Address} {value : Int32}
    (next : config.frame.todo = ⟨result, .load pointer⟩ :: todo)
    (found : config.frame.operand pointer = .ok (.ptr address))
    (loaded : config.store.load? address = some value) :
    config.step image maxDepth = .ok (.running
      ⟨(config.frame.goOn todo).assign result (.int value), config.callers, config.store⟩) := by
  have one : (config.frame.goOn todo).ptr pointer = .ok address := Frame.ptr_eq found
  simp only [step_instr next, Config.execute, one, loaded, bind, Except.bind]
  rfl

theorem step_store {pointer operand : Operand} {address : Address} {value : Int32} {store : Store}
    (next : config.frame.todo = ⟨result, .store pointer operand⟩ :: todo)
    (found : config.frame.operand pointer = .ok (.ptr address))
    (computed : config.frame.operand operand = .ok (.int value))
    (stored : config.store.set? address value = some store) :
    config.step image maxDepth =
      .ok (.running ⟨config.frame.goOn todo, config.callers, store⟩) := by
  have one : (config.frame.goOn todo).ptr pointer = .ok address := Frame.ptr_eq found
  have two : (config.frame.goOn todo).int operand = .ok value := Frame.int_eq computed
  simp only [step_instr next, Config.execute, one, two, stored, bind, Except.bind]
  rfl

theorem step_call {callee : String} {args : List Operand} {values : List Value}
    (next : config.frame.todo = ⟨result, .call callee args⟩ :: todo)
    (computed : config.frame.operands args = .ok values) :
    config.step image maxDepth =
      (enter image maxDepth config.store (config.frame.depth + 1) callee values).map fun entered =>
        match entered with
        | (.returned value, store) =>
          .running ⟨(config.frame.goOn todo).assign result value, config.callers, store⟩
        | (.opened opened, store) =>
          .running ⟨opened, (config.frame.goOn todo, result) :: config.callers, store⟩ := by
  have depth : (config.frame.goOn todo).depth = config.frame.depth := rfl
  simp only [step_instr next, Config.execute, Frame.operands_goOn, computed, depth, bind, Except.bind]
  cases enter image maxDepth config.store (config.frame.depth + 1) callee values with
  | error => rfl
  | ok entered =>
    obtain ⟨entered, store⟩ := entered
    cases entered <;> rfl

section

variable {target : BlockId} {block : Block}

theorem step_jump (next : config.frame.todo = [])
    (ending : config.frame.block.terminator = some (.jump target))
    (found : config.frame.routine.block? target = some block) :
    config.step image maxDepth = .ok (.running
      { config with frame := { config.frame with block := block, todo := block.instrs } }) := by
  simp only [Config.step, next, Config.terminate, ending, Frame.jump, found]
  rfl

theorem step_branch {condition : Operand} {yes no : BlockId} {value : Bool}
    (next : config.frame.todo = [])
    (ending : config.frame.block.terminator = some (.branch condition yes no))
    (tested : config.frame.operand condition = .ok (.bool value))
    (found : config.frame.routine.block? (if value then yes else no) = some block) :
    config.step image maxDepth = .ok (.running
      { config with frame := { config.frame with block := block, todo := block.instrs } }) := by
  have one := Frame.bool_eq tested
  simp only [Config.step, next, Config.terminate, ending, one, Frame.jump, bind, Except.bind, found]
  rfl

theorem step_ret {operand : Operand} {value : Value} (next : config.frame.todo = [])
    (ending : config.frame.block.terminator = some (.ret operand))
    (found : config.frame.operand operand = .ok value) :
    config.step image maxDepth = .ok (config.leave value) := by
  simp only [Config.step, next, Config.terminate, ending, found]
  rfl

end

end OliCompiler.Machine
