import OliCompiler.Proofs.Evaluation.Scoped
import OliCompiler.Proofs.Execution.Simulates
import OliCompiler.Proofs.Execution.Steps
import OliCompiler.Proofs.Lowering.Shape
import OliCompiler.Proofs.Scope.WellScoped

/-!
When a configuration matches the state of an evaluation. The call in progress stands at some code of
its function, each local has its value in its stack slot, and the slots with a stored value are those
of the locals that are set.
-/

namespace OliCompiler.Machine

open Ir Evaluation

/-- What stays the same during a call of a lowered function. -/
structure Activation where
  routine : Routine
  code : Code
  depth : Nat
  callers : List (Frame × Option Reg)
  /-- The stack of the calls that wait. -/
  stack : Array Int32
  stored : Nat → Bool

namespace Activation

def slots (activation : Activation) : List Reg := Code.slots activation.code

/-- The address of a variable during the call. -/
def address (activation : Activation) : Scoped.Var → Address
  | .local slot => .stack (activation.stack.size + slot)
  | .global name => .global name

end Activation

/-- The code of an activation is that of its routine, and only stack slots have their registers. -/
structure Laid (activation : Activation) : Prop where
  block : ∀ {id : BlockId} {hint : String} {rest : Code}, .label id hint :: rest <:+ activation.code →
    id ≠ ⟨0⟩ → activation.routine.block? id = some ⟨id, some hint, Code.body rest, Code.ending rest⟩
  apart : ∀ {instr : Instr}, .instr instr ∈ activation.code →
    ∀ reg, instr.result = some reg → reg ∉ activation.slots

/-- Whether the store has the globals and the output of a world. -/
structure Shows (globals : List String) (store : Store) (world : World) : Prop where
  globals : ∀ name ∈ globals, store.globals[name]? = some (world.globals name)
  output : store.output = world.output

/-- Whether a frame stands at some code of its function. -/
structure StandsAt (activation : Activation) (rest : Code) (frame : Frame) : Prop where
  routine : frame.routine = activation.routine
  depth : frame.depth = activation.depth
  base : frame.base = activation.stack.size
  todo : frame.todo = Code.body rest
  ending : frame.block.terminator = Code.ending rest
  slots : ∀ {slot : Nat} {reg : Reg}, activation.slots[slot]? = some reg →
    frame.registers[reg]? = some (.ptr (.stack (activation.stack.size + slot)))

/-- Whether the stack has the calls that wait and, above them, the locals. -/
structure Memory (activation : Activation) (globals : List String) (state : State Nat) (store : Store)
    (stored : Nat → Bool) : Prop where
  size : store.stack.size = activation.stack.size + activation.slots.length
  under : ∀ index < activation.stack.size,
    store.stack[index]? = activation.stack[index]? ∧ stored index = activation.stored index
  cells : ∀ slot < activation.slots.length,
    store.stack[activation.stack.size + slot]? = some ((state.locals slot).getD 0) ∧
      stored (activation.stack.size + slot) = (state.locals slot).isSome
  shows : Shows globals store state.world

/-- Whether a configuration stands at some code, in a state. -/
structure Matches (activation : Activation) (globals : List String) (rest : Code) (state : State Nat)
    (tracked : Tracked) : Prop where
  standing : StandsAt activation rest tracked.config.frame
  memory : Memory activation globals state tracked.config.store tracked.stored
  callers : tracked.config.callers = activation.callers

variable {activation : Activation} {globals : List String} {rest : Code} {state : State Nat}
  {tracked : Tracked} {image : Image} {rules : Rules} {bound : Nat}

section

variable {frame : Frame} {result : Option Reg}

theorem operand_reg {reg : Reg} {value : Value} (found : frame.registers[reg]? = some value) :
    frame.operand (.reg reg) = .ok value := by
  simp only [Frame.operand, found]

theorem operand_assign {reg : Reg} {value : Value} :
    (frame.assign (some reg) value).operand (.reg reg) = .ok value :=
  operand_reg (by simp [Frame.assign])

theorem StandsAt.goOn {instr : Instr} (stands : StandsAt activation (.instr instr :: rest) frame) :
    StandsAt activation rest (frame.goOn (Code.body rest)) :=
  ⟨stands.routine, stands.depth, stands.base, rfl, stands.ending, stands.slots⟩

/-- The slots are made at the start of a call, so a frame that stands at one stands behind it. -/
theorem StandsAt.skip {reg : Reg} (stands : StandsAt activation (.slot reg :: rest) frame) :
    StandsAt activation rest frame :=
  ⟨stands.routine, stands.depth, stands.base, stands.todo, stands.ending, stands.slots⟩

/-- Behind an instruction whose result is no stack slot, a frame stands at the code behind it. -/
theorem StandsAt.assign {instr : Instr} (stands : StandsAt activation (.instr instr :: rest) frame)
    (apart : ∀ reg, result = some reg → reg ∉ activation.slots) (value : Value) :
    StandsAt activation rest ((frame.goOn (Code.body rest)).assign result value) := by
  cases result with
  | none => exact stands.goOn
  | some reg =>
    refine ⟨stands.routine, stands.depth, stands.base, rfl, stands.ending, ?_⟩
    intro slot other found
    have different : (reg == other) = false := by
      apply beq_false_of_ne
      rintro rfl
      exact apart _ rfl (List.mem_of_getElem? found)
    simpa [Frame.assign, Frame.goOn, Std.HashMap.getElem?_insert, different] using
      stands.slots found

end

/-- The value that a variable has; a local that is not set has zero. -/
def current (locals : Nat → Option Int32) (world : World) : Scoped.Var → Int32
  | .local slot => (locals slot).getD 0
  | .global name => world.globals name

/-- Whether a variable is a local that is not set. -/
def unset (locals : Nat → Option Int32) : Scoped.Var → Bool
  | .local slot => (locals slot).isNone
  | .global _ => false

theorem evaluate_var {locals : Nat → Option Int32} {world : World} {var : Scoped.Var} :
    var.evaluate rules locals world =
      if rules.strict && unset locals var then .error .unset else .ok (current locals world var) := by
  cases var with
  | «local» slot =>
    cases found : locals slot <;>
      simp [Scoped.Var.evaluate, Rules.read, unset, current, found]
  | global name => simp [Scoped.Var.evaluate, unset, current]

section

variable {symbols : Symbols} {count : Nat} {var : Scoped.Var}

theorem StandsAt.place {frame : Frame} (stands : StandsAt activation rest frame)
    (settled : var.InScope symbols count) (le : count ≤ activation.slots.length) :
    frame.operand (Lower.place activation.slots var) = .ok (.ptr (activation.address var)) := by
  cases var with
  | «local» slot =>
    have bound : slot < activation.slots.length := Nat.lt_of_lt_of_le settled le
    have found := List.getElem?_eq_getElem bound
    rw [Lower.place, found, Option.getD_some]
    exact operand_reg (stands.slots found)
  | global name => rfl

theorem Memory.load {store : Store} {stored : Nat → Bool}
    (memory : Memory activation symbols.globals state store stored)
    (settled : var.InScope symbols count) (le : count ≤ activation.slots.length) :
    store.load? (activation.address var) = some (current state.locals state.world var) := by
  cases var with
  | «local» slot => exact (memory.cells slot (Nat.lt_of_lt_of_le settled le)).1
  | global name => exact memory.shows.globals name settled

/-- Whether a slot has a stored value behind a store to an address. -/
def markAt (address : Address) (stored : Nat → Bool) : Nat → Bool :=
  match address with
  | .stack index => fun slot => if slot = index then true else stored slot
  | .global _ => stored

/-- A store to a variable is an assignment to it. -/
theorem Memory.store {store : Store} {stored : Nat → Bool} {value : Int32}
    (memory : Memory activation symbols.globals state store stored)
    (settled : var.InScope symbols count) (le : count ≤ activation.slots.length) :
    ∃ store', store.set? (activation.address var) value = some store' ∧
      Memory activation symbols.globals (var.set value state) store'
        (markAt (activation.address var) stored) := by
  cases var with
  | «local» slot =>
    have bound : slot < activation.slots.length := Nat.lt_of_lt_of_le settled le
    have size := memory.size
    refine ⟨{ store with
      stack := store.stack.setIfInBounds (activation.stack.size + slot) value }, ?_, ?_⟩
    · rw [Activation.address, Store.set?, if_pos (by omega)]
    · refine ⟨by simpa using size, ?_, ?_, memory.shows.globals, memory.shows.output⟩
      · intro index less
        have below := memory.under index less
        have different : activation.stack.size + slot ≠ index := by omega
        simpa [markAt, Activation.address, Array.getElem?_setIfInBounds, different, different.symm]
          using below
      · intro other otherBound
        have cell := memory.cells other otherBound
        by_cases same : other = slot
        · subst same
          have inside : activation.stack.size + other < store.stack.size := by omega
          simp [markAt, Activation.address, Scoped.Var.set, State.setLocal, inside]
        · simpa [markAt, Activation.address, Array.getElem?_setIfInBounds, same, Ne.symm same,
            Scoped.Var.set, State.setLocal] using cell
  | global name =>
    have present : name ∈ store.globals := by
      rw [Std.HashMap.mem_iff_isSome_getElem?, memory.shows.globals name settled]
      rfl
    refine ⟨{ store with globals := store.globals.insert name value }, ?_, ?_⟩
    · rw [Activation.address, Store.set?, if_pos present]
    · refine ⟨memory.size, memory.under, memory.cells, ?_, memory.shows.output⟩
      intro other declared
      have found := memory.shows.globals other declared
      by_cases same : other = name
      · simp [same, Scoped.Var.set, State.setGlobal, World.setGlobal]
      · have different : (name == other) = false := beq_false_of_ne (Ne.symm same)
        simpa [Std.HashMap.getElem?_insert, different, same, Scoped.Var.set, State.setGlobal,
          World.setGlobal] using found

end

end OliCompiler.Machine
