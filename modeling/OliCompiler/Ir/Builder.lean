import OliCompiler.Ir

/-!
Building a module one call at a time. Instructions go to a block that the caller names; a block is
created first, which gives its number, and started later, which gives its place. Stack slots are kept
apart while a function is under construction and open its entry block when it is finished, so they
stand there in the order in which they were asked for. The numbers of registers and blocks are counted
anew in each function, in 32 bits or without an end.
-/

namespace OliCompiler.Ir

/-- What numbers are counted with. They may start again at zero, but not below the ones that are reached. -/
class Counter (ν : Type) where
  ofNat : Nat → ν
  toNat : ν → Nat
  next : ν → ν
  reaches (ν) : Nat → Prop
  reaches_of_le {less more : Nat} : less ≤ more → reaches more → reaches less
  toNat_ofNat {n : Nat} : reaches n → toNat (ofNat n) = n
  toNat_next {number : ν} : reaches (toNat number + 1) → toNat (next number) = toNat number + 1

namespace Counter

/-- Counting without an end. -/
instance : Counter Nat where
  ofNat := id
  toNat := id
  next := (· + 1)
  reaches _ := True
  reaches_of_le _ _ := trivial
  toNat_ofNat _ := rfl
  toNat_next _ := rfl

/-- Counting in 32 bits, where zero comes behind the last number. -/
instance : Counter UInt32 where
  ofNat := .ofNat
  toNat := UInt32.toNat
  next := (· + 1)
  reaches n := n < UInt32.size
  reaches_of_le := Nat.lt_of_le_of_lt
  toNat_ofNat := UInt32.toNat_ofNat_of_lt
  toNat_next small := by
    rw [UInt32.toNat_add]
    exact Nat.mod_eq_of_lt small

@[simp] theorem ofNat_nat (n : Nat) : (ofNat n : Nat) = n := rfl

@[simp] theorem toNat_nat (n : Nat) : toNat n = n := rfl

@[simp] theorem next_nat (n : Nat) : next n = n + 1 := rfl

end Counter

/-- A function under construction. Its blocks stand in the order in which they were started. -/
structure Draft where
  name : String
  params : List Reg
  slots : List (Reg × Ty)
  blocks : List Block
deriving DecidableEq, Repr

namespace Draft

def slotInstrs (draft : Draft) : List Instr :=
  draft.slots.map fun (reg, ty) => ⟨some reg, .slot ty⟩

/-- The blocks with the stack slots in front of the entry block. -/
def placedBlocks (draft : Draft) : List Block :=
  match draft.blocks with
  | [] => []
  | entry :: blocks => { entry with instrs := draft.slotInstrs ++ entry.instrs } :: blocks

/-- The function as it stands. -/
def toFunction (draft : Draft) : Function where
  name := draft.name
  params := draft.params.map fun reg => (reg, .i32)
  result := .i32
  blocks := draft.placedBlocks
  external := false
  variadic := false

/-- Changes the block of a number. -/
def modifyBlock (draft : Draft) (id : BlockId) (change : Block → Block) : Draft :=
  { draft with blocks := draft.blocks.map fun block => if block.id = id then change block else block }

end Draft

/-- A module under construction: what is finished, the function in progress, the next register and
block number in it, and the blocks that are created but not started. -/
structure Builder (ν : Type) where
  name : String
  globals : List Global
  functions : List Function
  nextReg : ν
  nextBlock : ν
  draft : Option Draft
  pending : List (BlockId × String)
deriving DecidableEq, Repr

namespace Builder

variable {ν : Type} [Counter ν]

/-- The builder of an empty module. -/
def empty (name : String) : Builder ν := ⟨name, [], [], Counter.ofNat 0, Counter.ofNat 0, none, []⟩

def freshReg (builder : Builder ν) : Reg × Builder ν :=
  (⟨Counter.toNat builder.nextReg⟩, { builder with nextReg := Counter.next builder.nextReg })

def freshBlock (builder : Builder ν) : BlockId × Builder ν :=
  (⟨Counter.toNat builder.nextBlock⟩, { builder with nextBlock := Counter.next builder.nextBlock })

def mapDraft (builder : Builder ν) (change : Draft → Draft) : Builder ν :=
  { builder with draft := builder.draft.map change }

/-- Closes the function in progress; blocks that were never started are forgotten. -/
def finishFunction (builder : Builder ν) : Builder ν :=
  { builder with
    functions := builder.functions ++ (builder.draft.map Draft.toFunction).toList
    draft := none
    pending := [] }

/-- The finished module. -/
def finish (builder : Builder ν) : Module :=
  let builder := builder.finishFunction
  ⟨builder.name, builder.globals, builder.functions⟩

/-- The first block, by number, that has no terminator or was not started. -/
def unterminated? (builder : Builder ν) : Option BlockId :=
  let blocks := (builder.draft.map Draft.blocks).getD []
  let unfinished := blocks.filter fun block => block.terminator.isNone
  let ids := unfinished.map (·.id) ++ builder.pending.map (·.1)
  (ids.map (·.index)).min?.map BlockId.mk

/-- Declares an external function that takes further arguments behind its parameters. -/
def declareVariadic (builder : Builder ν) (name : String) (params : List Ty) (result : Ty) : Builder ν :=
  { builder with
    functions := builder.functions ++ [⟨name, params.map (⟨0⟩, ·), result, [], true, true⟩] }

def addGlobal (builder : Builder ν) (global : Global) : Builder ν :=
  { builder with globals := builder.globals ++ [global] }

/-- Adds a constant text, stored with a zero byte behind it, and gives its address. -/
def addText (builder : Builder ν) (name text : String) : Operand × Builder ν :=
  (.global name,
    builder.addGlobal ⟨name, .array .i8 (text.utf8ByteSize + 1), .text text, true⟩)

/-- Creates a block; the hint becomes part of its label. -/
def createBlock (builder : Builder ν) (hint : String) : BlockId × Builder ν :=
  let (id, builder) := builder.freshBlock
  (id, { builder with pending := builder.pending ++ [(id, hint)] })

/-- Places a created block behind those of the function in progress; any other number is ignored. -/
def startBlock (builder : Builder ν) (id : BlockId) : Builder ν :=
  match builder.pending.lookup id with
  | none => builder
  | some hint =>
    let builder := { builder with pending := builder.pending.filter fun (other, _) => other ≠ id }
    builder.mapDraft fun draft => { draft with blocks := draft.blocks ++ [⟨id, some hint, [], none⟩] }

/-- Opens a function of integers; gives its parameter registers and its entry block. -/
def startFunction (builder : Builder ν) (name : String) (arity : Nat) :
    (List Reg × BlockId) × Builder ν :=
  let builder := builder.finishFunction
  let params := (List.range arity).map fun index => ⟨Counter.toNat (Counter.ofNat index : ν)⟩
  let builder :=
    { builder with
      nextReg := Counter.ofNat arity
      nextBlock := Counter.ofNat 0
      draft := some ⟨name, params, [], []⟩ }
  let (entry, builder) := builder.createBlock "entry"
  ((params, entry), builder.startBlock entry)

/-- Appends an instruction to a started block; any other number is ignored. -/
def emit (builder : Builder ν) (id : BlockId) (instr : Instr) : Builder ν :=
  builder.mapDraft fun draft =>
    draft.modifyBlock id fun block => { block with instrs := block.instrs ++ [instr] }

/-- Appends an operation whose result goes to a new register. -/
def append (builder : Builder ν) (id : BlockId) (op : Op) : Reg × Builder ν :=
  let (reg, builder) := builder.freshReg
  (reg, builder.emit id ⟨some reg, op⟩)

/-- Appends a store, which has no result. -/
def store (builder : Builder ν) (id : BlockId) (address value : Operand) : Builder ν :=
  builder.emit id ⟨none, .store address value⟩

/-- Asks for a stack slot in the function in progress and gives the register of its address. -/
def slot (builder : Builder ν) (ty : Ty) : Reg × Builder ν :=
  let (reg, builder) := builder.freshReg
  (reg, builder.mapDraft fun draft => { draft with slots := draft.slots ++ [(reg, ty)] })

/-- Ends a started block; a block that is ended already stays as it is. -/
def terminate (builder : Builder ν) (id : BlockId) (terminator : Terminator) : Builder ν :=
  builder.mapDraft fun draft =>
    draft.modifyBlock id fun block =>
      { block with terminator := block.terminator.or (some terminator) }

end Builder

end OliCompiler.Ir
