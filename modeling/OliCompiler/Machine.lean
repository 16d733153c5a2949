import OliCompiler.Language
import OliCompiler.Machine.Format
import OliCompiler.Machine.Image

/-!
Running intermediate code, one instruction or terminator a step. A configuration holds the call in
progress with the instructions left in its block, the calls that wait for it, the globals, the stack
and the text printed so far. Integers are 32 bits wide and wrap, and division is signed.
-/

namespace OliCompiler.Machine

open Ir

/-- The registers of a call. -/
abbrev Registers := Std.HashMap Reg Value

/-- A call in progress. -/
structure Frame where
  routine : Routine
  block : Block
  /-- The instructions of the block that are left. -/
  todo : List Instr
  registers : Registers
  /-- The height of the stack at the start of the call. -/
  base : Nat
  /-- How many calls wait for this one. -/
  depth : Nat

/-- What the calls of a run share. -/
structure Store where
  globals : Std.HashMap String Int32
  stack : Array Int32
  output : String

structure Config where
  frame : Frame
  /-- The calls that wait, each with the register for the result that it waits for. -/
  callers : List (Frame × Option Reg)
  store : Store

/-- The limits of a run. -/
structure Limits where
  steps : Nat := 10000000
  depth : Nat := 1000
deriving DecidableEq, Repr

/-- The outcome of a run: the value of the entry function, and all that was printed. -/
structure Execution where
  exitCode : Int32
  output : String
deriving DecidableEq, Repr

variable {α : Type}

namespace Frame

/-- The function called. -/
def function (frame : Frame) : Ir.Function := frame.routine.function

/-- Ends the run because the code of the function has no meaning. -/
def malformed (frame : Frame) (defect : Defect) : Except Fault α :=
  .error (.malformed frame.function.name defect)

def operand (frame : Frame) : Operand → Except Fault Value
  | .reg reg =>
    match frame.registers[reg]? with
    | some value => .ok value
    | none => frame.malformed (.undefinedRegister reg)
  | .int value => .ok (.int value)
  | .global name => .ok (.ptr (.global name))

def operands (frame : Frame) : List Operand → Except Fault (List Value)
  | [] => .ok []
  | operand :: operands => do
    let value ← frame.operand operand
    let values ← frame.operands operands
    return value :: values

def int (frame : Frame) (operand : Operand) : Except Fault Int32 := do
  match ← frame.operand operand with
  | .int value => .ok value
  | value => frame.malformed (.notInt value)

def bool (frame : Frame) (operand : Operand) : Except Fault Bool := do
  match ← frame.operand operand with
  | .bool value => .ok value
  | value => frame.malformed (.notBool value)

def ptr (frame : Frame) (operand : Operand) : Except Fault Address := do
  match ← frame.operand operand with
  | .ptr address => .ok address
  | value => frame.malformed (.notPtr value)

/-- Puts a value into a register, if there is one for it. -/
def assign (frame : Frame) (result : Option Reg) (value : Value) : Frame :=
  match result with
  | some reg => { frame with registers := frame.registers.insert reg value }
  | none => frame

/-- Goes to the start of a block. -/
def jump (frame : Frame) (id : BlockId) : Except Fault Frame :=
  match frame.routine.block? id with
  | some block => .ok { frame with block := block, todo := block.instrs }
  | none => frame.malformed (.missingBlock id)

end Frame

namespace Store

/-- The store before a run: the globals that are integers, of several with one name the last. -/
def initial (module : Module) : Store where
  globals := module.globals.foldl (fun globals global =>
    match global.init with
    | .int value => globals.insert global.name value
    | .text _ => globals) ∅
  stack := #[]
  output := ""

def load? (store : Store) : Address → Option Int32
  | .global name => store.globals[name]?
  | .stack index => store.stack[index]?

def set? (store : Store) (address : Address) (value : Int32) : Option Store :=
  match address with
  | .global name =>
    if name ∈ store.globals then some { store with globals := store.globals.insert name value }
    else none
  | .stack index =>
    if index < store.stack.size then
      some { store with stack := store.stack.setIfInBounds index value }
    else none

/-- Adds a slot, which holds zero. -/
def push (store : Store) : Address × Store :=
  (.stack store.stack.size, { store with stack := store.stack.push 0 })

/-- Drops the slots above a height. -/
def shrink (store : Store) (height : Nat) : Store :=
  { store with stack := store.stack.shrink height }

def print (store : Store) (text : String) : Store :=
  { store with output := store.output ++ text }

end Store

/-- The value of an arithmetic operation in a function. -/
def arith (function : String) : ArithOp → Int32 → Int32 → Except Fault Int32
  | .add, a, b => .ok (a + b)
  | .sub, a, b => .ok (a - b)
  | .mul, a, b => .ok (a * b)
  | .sdiv, a, b =>
    if b = 0 then .error (.divisionByZero function)
    else if a = Int32.minValue ∧ b = -1 then .error (.divisionOverflow function)
    else .ok (a / b)

/-- What a call comes to at once: a result, if the function is external, or a frame to run. -/
inductive Entered where
  | returned (value : Value)
  | opened (frame : Frame)

/-- Enters a function; gives the store behind what it printed. -/
def enter (image : Image) (maxDepth : Nat) (store : Store) (depth : Nat) (name : String)
    (args : List Value) : Except Fault (Entered × Store) :=
  match image.routine? name with
  | none => .error (.unknownFunction name)
  | some routine =>
    let function := routine.function
    if function.external then
      if name = printerName then do
        let text ← printed image.module args
        return (.returned (.int (Int32.ofNat text.utf8ByteSize)), store.print text)
      else
        .error (.unknownFunction name)
    else if maxDepth ≤ depth then
      .error (.depthLimit maxDepth)
    else if args.length ≠ function.params.length then
      .error (.malformed name (.argumentCount function.params.length args.length))
    else
      match function.entry? with
      | none => .error (.malformed name .noEntryBlock)
      | some block =>
        let params := function.params.map (·.1)
        let frame : Frame :=
          { routine, block, depth
            todo := block.instrs
            registers := (params.zip args).foldl (fun registers (reg, value) =>
              registers.insert reg value) ∅
            base := store.stack.size }
        .ok (.opened frame, store)

/-- What a step leads to: a further configuration, or the value of the entry function. -/
inductive Next where
  | running (config : Config)
  | finished (value : Value) (store : Store)

namespace Config

/-- Executes an instruction, which has been taken off its block. -/
def execute (image : Image) (maxDepth : Nat) (config : Config) (instr : Instr) :
    Except Fault Config :=
  let ⟨frame, callers, store⟩ := config
  let result := instr.result
  match instr.op with
  | .arith op left right => do
    let a ← frame.int left
    let b ← frame.int right
    let value ← arith frame.function.name op a b
    return ⟨frame.assign result (.int value), callers, store⟩
  | .compare op left right => do
    let a ← frame.int left
    let b ← frame.int right
    return ⟨frame.assign result (.bool (op.holds a b)), callers, store⟩
  | .widen value _ => do
    let value ← frame.bool value
    return ⟨frame.assign result (.int (if value then 1 else 0)), callers, store⟩
  | .slot _ =>
    let (address, store) := store.push
    .ok ⟨frame.assign result (.ptr address), callers, store⟩
  | .load pointer => do
    let address ← frame.ptr pointer
    match store.load? address with
    | some value => return ⟨frame.assign result (.int value), callers, store⟩
    | none => frame.malformed (.badLoad address)
  | .store pointer value => do
    let address ← frame.ptr pointer
    let value ← frame.int value
    match store.set? address value with
    | some store => return ⟨frame, callers, store⟩
    | none => frame.malformed (.badStore address)
  | .call callee args => do
    let values ← frame.operands args
    match ← enter image maxDepth store (frame.depth + 1) callee values with
    | (.returned value, store) => return ⟨frame.assign result value, callers, store⟩
    | (.opened opened, store) => return ⟨opened, (frame, result) :: callers, store⟩

/-- Gives the result of the call in progress to the one that waits for it. -/
def leave (config : Config) (value : Value) : Next :=
  let store := config.store.shrink config.frame.base
  match config.callers with
  | [] => .finished value store
  | (frame, result) :: callers => .running ⟨frame.assign result value, callers, store⟩

/-- Executes the terminator of the block. -/
def terminate (config : Config) : Except Fault Next :=
  let frame := config.frame
  match frame.block.terminator with
  | none => frame.malformed (.noTerminator frame.block.id)
  | some (.ret value) => do
    let value ← frame.operand value
    return config.leave value
  | some (.jump target) => do
    return .running { config with frame := ← frame.jump target }
  | some (.branch condition yes no) => do
    let condition ← frame.bool condition
    return .running { config with frame := ← frame.jump (if condition then yes else no) }
  | some .unreachable => .error (.unreachable frame.function.name)

/-- One step: the next instruction of the block or, behind the last, its terminator. -/
def step (image : Image) (maxDepth : Nat) (config : Config) : Except Fault Next :=
  match config.frame.todo with
  | [] => config.terminate
  | instr :: todo => do
    let config := { config with frame := { config.frame with todo := todo } }
    return .running (← config.execute image maxDepth instr)

end Config

/-- The outcome of a run whose entry function gave a value. -/
def finish (value : Value) (store : Store) : Except Fault Execution :=
  match value with
  | .int exitCode => .ok ⟨exitCode, store.output⟩
  | value => .error (.malformed entryName (.badResult value))

/-- Runs a configuration for a number of steps at most. -/
def runFrom (image : Image) (limits : Limits) : Nat → Config → Except Fault Execution
  | 0, _ => .error (.stepLimit limits.steps)
  | steps + 1, config => do
    match ← config.step image limits.depth with
    | .running config => runFrom image limits steps config
    | .finished value store => finish value store

/-- Runs the entry function of a module. -/
def run (module : Module) (limits : Limits) : Except Fault Execution := do
  let image := Image.ofModule module
  match ← enter image limits.depth (.initial module) 0 entryName [] with
  | (.returned value, store) => finish value store
  | (.opened frame, store) => runFrom image limits limits.steps ⟨frame, [], store⟩

/-- What a writer with room for some bytes takes of a text. A character of which it takes only the
first bytes reads as the replacement character. -/
def takeBytes : Nat → List Char → List Char
  | _, [] => []
  | room, c :: text =>
    if c.utf8Size ≤ room then c :: takeBytes (room - c.utf8Size) text
    else if room = 0 then []
    else ['\ufffd']

/-- What a writer takes of the output of a run, and whether that is all of it. Without a bound to its room
it takes everything. -/
def Execution.takenWithin (execution : Execution) : Option Nat → String × Bool
  | none => (execution.output, true)
  | some room =>
    (String.ofList (takeBytes room execution.output.toList),
      decide (execution.output.utf8ByteSize ≤ room))

end OliCompiler.Machine
