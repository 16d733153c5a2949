import Mathlib.Data.List.Infix
import OliCompiler.Ir.Builder
import OliCompiler.Proofs.Verifier.Rules
import Std.Data.HashMap.Lemmas

/-!
What a builder may be asked, in any order and with any numbers, and what it is to make of it. The journal
of a function in progress lists what the calls have given to it. A second builder takes the same calls; it
keeps the function as it will stand, with a table of where its blocks are, and puts stack slots in place at
once.
-/

namespace OliCompiler.Ir

/-- Whether an operation makes a stack slot. -/
def Op.isSlot : Op → Bool
  | .slot _ => true
  | _ => false

/-- Whether an operation computes a result in the block that it is given to. -/
def Op.computes : Op → Bool
  | .slot _ | .store _ _ => false
  | _ => true

namespace Builder

/-- A call of a builder. -/
inductive Call where
  | freshReg
  | freshBlock
  | startFunction (name : String) (arity : Nat)
  | finishFunction
  | declareVariadic (name : String) (params : List Ty) (result : Ty)
  | addGlobal (global : Global)
  | addText (name text : String)
  | createBlock (hint : String)
  | startBlock (id : BlockId)
  | append (id : BlockId) (op : Op) (computes : op.computes = true)
  | store (id : BlockId) (address value : Operand)
  | slot (ty : Ty)
  | terminate (id : BlockId) (terminator : Terminator)

/-- The block that a call emits into or terminates. -/
def Call.target? : Call → Option BlockId
  | append id _ _ | store id _ _ | terminate id _ => some id
  | _ => none

/-- The registers that a function has behind a call. -/
def Call.registers (before : Nat) : Call → Nat
  | startFunction _ arity => arity
  | freshReg | append _ _ _ | slot _ => before + 1
  | _ => before

/-- The blocks that a function has behind a call; a new one has its entry block. -/
def Call.blocks (before : Nat) : Call → Nat
  | startFunction _ _ => 1
  | freshBlock | createBlock _ => before + 1
  | _ => before

/-- Whether counters reach what some calls give to any function. -/
def Call.Counted (ν : Type) [Counter ν] (calls : List Call) : Prop :=
  ∀ front, front <+: calls → Counter.reaches ν (front.foldl registers 0) ∧
    Counter.reaches ν (front.foldl blocks 0)

theorem Call.counted_nat (calls : List Call) : Counted Nat calls := fun _ _ => ⟨trivial, trivial⟩

instance (calls : List Call) : Decidable (Call.Counted UInt32 calls) :=
  decidable_of_iff (∀ front ∈ calls.inits, front.foldl Call.registers 0 < UInt32.size ∧
    front.foldl Call.blocks 0 < UInt32.size) (forall_congr' fun front => by rw [List.mem_inits]; rfl)

variable {ν : Type} [Counter ν]

/-- The builder behind a call. -/
def perform (builder : Builder ν) : Call → Builder ν
  | .freshReg => builder.freshReg.2
  | .freshBlock => builder.freshBlock.2
  | .startFunction name arity => (builder.startFunction name arity).2
  | .finishFunction => builder.finishFunction
  | .declareVariadic name params result => builder.declareVariadic name params result
  | .addGlobal global => builder.addGlobal global
  | .addText name text => (builder.addText name text).2
  | .createBlock hint => (builder.createBlock hint).2
  | .startBlock id => builder.startBlock id
  | .append id op _ => (builder.append id op).2
  | .store id address value => builder.store id address value
  | .slot ty => (builder.slot ty).2
  | .terminate id terminator => builder.terminate id terminator

/-- The function in progress as it stands. -/
def function? (builder : Builder ν) : Option Function := builder.draft.map Draft.toFunction

/-- The blocks of the function in progress that are started, in order. -/
def startedIds (builder : Builder ν) : List BlockId :=
  (builder.draft.map Draft.blocks).getD [] |>.map Block.id

/-- The blocks that are created and not started. -/
def pendingIds (builder : Builder ν) : List BlockId := builder.pending.map Prod.fst

/-- Whether a block is still to be started or to be ended. -/
def Unfinished (builder : Builder ν) (id : BlockId) : Prop :=
  id ∈ builder.pendingIds ∨
    ∃ function ∈ builder.function?, ∃ block ∈ function.blocks, block.id = id ∧ block.terminator = none

end Builder

/-- What a call gives to the function in progress. -/
inductive Entry where
  | started (id : BlockId)
  | slot (reg : Reg) (ty : Ty)
  | emitted (id : BlockId) (instr : Instr)
  | ended (id : BlockId) (terminator : Terminator)

namespace Entry

def started? : Entry → Option BlockId
  | started id => some id
  | _ => none

def slot? : Entry → Option (Reg × Ty)
  | slot reg ty => some (reg, ty)
  | _ => none

/-- What is emitted into one block. -/
def emitted? (id : BlockId) : Entry → Option Instr
  | emitted target instr => if target = id then some instr else none
  | _ => none

/-- How one block is ended. -/
def ended? (id : BlockId) : Entry → Option Terminator
  | ended target terminator => if target = id then some terminator else none
  | _ => none

end Entry

section

variable {ν : Type} [Counter ν]

/-- What a call adds to the journal. A call with the number of a block that is not started adds nothing,
nor does the start of a block that is not pending. -/
def Builder.entries (builder : Builder ν) : Builder.Call → List Entry
  | .startBlock id => if id ∈ builder.pendingIds then [.started id] else []
  | .append id op _ =>
    if id ∈ builder.startedIds then [.emitted id ⟨some (builder.append id op).1, op⟩] else []
  | .store id address value =>
    if id ∈ builder.startedIds then [.emitted id ⟨none, .store address value⟩] else []
  | .slot ty => [.slot (builder.slot ty).1 ty]
  | .terminate id terminator => if id ∈ builder.startedIds then [.ended id terminator] else []
  | _ => []

/-- The journal behind a call; that of a new function begins with its entry block. -/
def Builder.record (builder : Builder ν) (journal : List Entry) : Builder.Call → List Entry
  | .startFunction name arity => [.started (builder.startFunction name arity).1.2]
  | call => journal ++ builder.entries call

end

/-- A module under construction whose function in progress stands as it will be, with the positions of
its blocks and the number of stack slots in front of its entry block. -/
structure Indexed (ν : Type) where
  name : String
  globals : List Global
  functions : List Function
  nextReg : ν
  nextBlock : ν
  current : Option Function
  index : Std.HashMap BlockId Nat
  pending : Std.HashMap BlockId String
  slots : Nat

namespace Indexed

variable {ν : Type} [Counter ν]

def empty (name : String) : Indexed ν :=
  ⟨name, [], [], Counter.ofNat 0, Counter.ofNat 0, none, ∅, ∅, 0⟩

def freshReg (table : Indexed ν) : Reg × Indexed ν :=
  (⟨Counter.toNat table.nextReg⟩, { table with nextReg := Counter.next table.nextReg })

def freshBlock (table : Indexed ν) : BlockId × Indexed ν :=
  (⟨Counter.toNat table.nextBlock⟩, { table with nextBlock := Counter.next table.nextBlock })

def finishFunction (table : Indexed ν) : Indexed ν :=
  { table with
    functions := table.functions ++ table.current.toList
    current := none
    index := ∅
    pending := ∅ }

def declareVariadic (table : Indexed ν) (name : String) (params : List Ty) (result : Ty) : Indexed ν :=
  { table with
    functions := table.functions ++ [⟨name, params.map (⟨0⟩, ·), result, [], true, true⟩] }

def addGlobal (table : Indexed ν) (global : Global) : Indexed ν :=
  { table with globals := table.globals ++ [global] }

def createBlock (table : Indexed ν) (hint : String) : BlockId × Indexed ν :=
  let (id, table) := table.freshBlock
  (id, { table with pending := table.pending.insert id hint })

def startBlock (table : Indexed ν) (id : BlockId) : Indexed ν :=
  match table.pending[id]? with
  | none => table
  | some hint =>
    let table := { table with pending := table.pending.erase id }
    match table.current with
    | none => table
    | some function =>
      { table with
        index := table.index.insert id function.blocks.length
        current := some { function with blocks := function.blocks ++ [⟨id, some hint, [], none⟩] } }

def startFunction (table : Indexed ν) (name : String) (arity : Nat) :
    (List Reg × BlockId) × Indexed ν :=
  let table := table.finishFunction
  let params := (List.range arity).map fun index => ⟨Counter.toNat (Counter.ofNat index : ν)⟩
  let function : Function := ⟨name, params.map (·, .i32), .i32, [], false, false⟩
  let table :=
    { table with
      nextReg := Counter.ofNat arity
      nextBlock := Counter.ofNat 0
      slots := 0
      current := some function }
  let (entry, table) := table.createBlock "entry"
  ((params, entry), table.startBlock entry)

/-- Changes the block at the position of a number. -/
def modifyBlock (table : Indexed ν) (id : BlockId) (change : Block → Block) : Indexed ν :=
  match table.index[id]? with
  | none => table
  | some position =>
    { table with
      current := table.current.map fun function =>
        { function with blocks := function.blocks.modify position change } }

def emit (table : Indexed ν) (id : BlockId) (instr : Instr) : Indexed ν :=
  table.modifyBlock id fun block => { block with instrs := block.instrs ++ [instr] }

def append (table : Indexed ν) (id : BlockId) (op : Op) : Reg × Indexed ν :=
  let (reg, table) := table.freshReg
  (reg, table.emit id ⟨some reg, op⟩)

/-- Puts a stack slot behind those that open the entry block. -/
def slot (table : Indexed ν) (ty : Ty) : Reg × Indexed ν :=
  let (reg, table) := table.freshReg
  (reg,
    match table.current with
    | none => table
    | some function =>
      match function.blocks with
      | [] => table
      | entry :: others =>
        let instrs := entry.instrs.insertIdx table.slots ⟨some reg, .slot ty⟩
        { table with
          current := some { function with blocks := { entry with instrs := instrs } :: others }
          slots := table.slots + 1 })

def terminate (table : Indexed ν) (id : BlockId) (terminator : Terminator) : Indexed ν :=
  table.modifyBlock id fun block =>
    { block with terminator := block.terminator.or (some terminator) }

def unterminated? (table : Indexed ν) : Option BlockId :=
  let blocks := (table.current.map Function.blocks).getD []
  let unfinished := blocks.filter fun block => block.terminator.isNone
  let ids := unfinished.map (·.id) ++ table.pending.keys
  (ids.map (·.index)).min?.map BlockId.mk

/-- The builder behind a call. -/
def perform (table : Indexed ν) : Builder.Call → Indexed ν
  | .freshReg => table.freshReg.2
  | .freshBlock => table.freshBlock.2
  | .startFunction name arity => (table.startFunction name arity).2
  | .finishFunction => table.finishFunction
  | .declareVariadic name params result => table.declareVariadic name params result
  | .addGlobal global => table.addGlobal global
  | .addText name text =>
    table.addGlobal ⟨name, .array .i8 (text.utf8ByteSize + 1), .text text, true⟩
  | .createBlock hint => (table.createBlock hint).2
  | .startBlock id => table.startBlock id
  | .append id op _ => (table.append id op).2
  | .store id address value => table.emit id ⟨none, .store address value⟩
  | .slot ty => (table.slot ty).2
  | .terminate id terminator => table.terminate id terminator

end Indexed

/-- Two builders that take the same calls, and the journal of the function in progress. -/
structure Session (ν : Type) where
  builder : Builder ν
  table : Indexed ν
  journal : List Entry

namespace Session

variable {ν : Type} [Counter ν]

def perform (session : Session ν) (call : Builder.Call) : Session ν where
  builder := session.builder.perform call
  table := session.table.perform call
  journal := session.builder.record session.journal call

/-- The session behind some calls, from an empty module on. -/
def run (name : String) (calls : List Builder.Call) : Session ν :=
  calls.foldl perform ⟨.empty name, .empty name, []⟩

/-- Whether the builders of a session have made of the calls what the journal says. -/
structure Sound (session : Session ν) : Prop where
  /-- Both builders have made the same, and are about to. -/
  agree : session.table.current = session.builder.function? ∧
    session.table.functions = session.builder.functions ∧
    session.table.globals = session.builder.globals ∧
    session.table.nextReg = session.builder.nextReg ∧
    session.table.nextBlock = session.builder.nextBlock ∧
    (∀ id : BlockId, session.table.pending[id]? = session.builder.pending.lookup id) ∧
    session.table.unterminated? = session.builder.unterminated?
  /-- Blocks are distinct and stand in the order in which they were started. -/
  blocks : ∀ function ∈ session.builder.function?,
    (function.blocks.map Block.id).Nodup ∧
      function.blocks.map Block.id = session.journal.filterMap Entry.started?
  /-- The table maps exactly the blocks of the function to their positions. -/
  index : ∀ (id : BlockId) (position : Nat), session.table.index[id]? = some position ↔
    ∃ function ∈ session.builder.function?, (function.blocks.map Block.id)[position]? = some id
  pending : ∀ id ∈ session.builder.pendingIds, ∀ function ∈ session.builder.function?,
    id ∉ function.blocks.map Block.id
  /-- Parameters and results are distinct registers, and all of them were given out. -/
  registers : ∀ function ∈ session.builder.function?, function.assigned.Nodup ∧
    ∀ reg ∈ function.assigned, reg.index < Counter.toNat session.builder.nextReg
  /-- The slots open the entry block in the order of the calls, and there are no others. -/
  slots : ∀ function ∈ session.builder.function?, ∃ entry others,
    function.blocks = entry :: others ∧
    session.table.slots = (session.journal.filterMap Entry.slot?).length ∧
    entry.instrs.take session.table.slots = (session.journal.filterMap Entry.slot?).map
      (fun slot => ⟨some slot.1, .slot slot.2⟩) ∧
    (∀ instr ∈ entry.instrs.drop session.table.slots, instr.op.isSlot = false) ∧
    ∀ block ∈ others, ∀ instr ∈ block.instrs, instr.op.isSlot = false
  /-- A block holds what was emitted into it, in order, and ends with the first terminator given. -/
  contents : ∀ function ∈ session.builder.function?, ∀ block ∈ function.blocks,
    block.instrs.filter (fun instr => !instr.op.isSlot) =
        session.journal.filterMap (Entry.emitted? block.id) ∧
      block.terminator = (session.journal.filterMap (Entry.ended? block.id)).head?
  /-- A call with the number of no block of the function changes no block. -/
  ignored : ∀ call id, call.target? = some id → id ∉ session.builder.startedIds →
    (session.perform call).builder.function? = session.builder.function?
  /-- Further calls leave the finished functions as they are. -/
  finished : ∀ calls : List Builder.Call,
    session.builder.functions <+: (calls.foldl perform session).builder.functions
  unterminated : ∀ id, session.builder.unterminated? = some id ↔ session.builder.Unfinished id ∧
    ∀ other, session.builder.Unfinished other → id.index ≤ other.index
  complete : session.builder.unterminated? = none ↔ ∀ id, ¬session.builder.Unfinished id

end Session

end OliCompiler.Ir
