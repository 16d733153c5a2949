import OliCompiler.Ir.Builder
import OliCompiler.Resolve

/-!
Lowering scoped trees to intermediate code. Every construct is lowered into the block where control
stands, and a statement tells from which block control falls out of it, if it does. Locals live in
stack slots, globals are zero until `main` computes their first values, and a comparison stays a truth
value until an integer is needed.
-/

namespace OliCompiler

namespace Lower

open Ir

/-- What lowering does to a builder. It counts without an end; with counters of 32 bits a function would
have to have 2³² registers or blocks for another module to be made. -/
abbrev Build := StateM (Builder Nat)

/-- The value of an expression: an integer, or the truth value of a comparison. -/
inductive Result where
  | word (operand : Operand)
  | truth (operand : Operand)
deriving DecidableEq, Repr

/-- Where `break` and `continue` go. -/
structure Targets where
  exit : BlockId
  next : BlockId
deriving DecidableEq, Repr

/-- Where control stands behind a statement. -/
inductive Flow where
  /-- It goes on in a block. -/
  | falls (block : BlockId)
  /-- It has left by `return`, `break` or `continue`. -/
  | leaves
deriving DecidableEq, Repr

/-- The operation that an operator is lowered to. -/
def arithOf : Arith → ArithOp
  | .add => .add
  | .sub => .sub
  | .mul => .mul
  | .div => .sdiv

/-- The condition that a comparison tests. -/
def conditionOf : Comparison → Condition
  | .eq => .eq
  | .ne => .ne
  | .lt => .slt
  | .le => .sle
  | .gt => .sgt
  | .ge => .sge

def append (block : BlockId) (op : Op) : Build Operand :=
  modifyGet fun builder =>
    let (reg, builder) := builder.append block op
    (.reg reg, builder)

def store (block : BlockId) (address value : Operand) : Build Unit :=
  modify fun builder => builder.store block address value

def terminate (block : BlockId) (terminator : Terminator) : Build Unit :=
  modify fun builder => builder.terminate block terminator

def create (hint : String) : Build BlockId :=
  modifyGet fun builder => builder.createBlock hint

def start (block : BlockId) : Build Unit :=
  modify fun builder => builder.startBlock block

/-- A new stack slot; gives its address. -/
def newSlot : Build Operand :=
  modifyGet fun builder =>
    let (reg, builder) := builder.slot .i32
    (.reg reg, builder)

/-- The address of a variable. The slots of a function are those of its locals, in order. -/
def address : Scoped.Var → Build Operand
  | .global name => return .global name
  | .local slot => do
    let slots := ((← get).draft.map Draft.slots).getD []
    return .reg ((slots[slot]?.map (·.1)).getD default)

/-- A result as an integer. -/
def asWord (block : BlockId) : Result → Build Operand
  | .word operand => return operand
  | .truth operand => append block (.widen operand .i32)

/-- A result as a truth value; an integer is true unless it is zero. -/
def asTruth (block : BlockId) : Result → Build Operand
  | .truth operand => return operand
  | .word operand => append block (.compare .ne operand (.int 0))

mutual

def expr (block : BlockId) : Scoped.Expr → Build Result
  | .int value => return .word (.int value)
  | .var var => do
    let operand ← append block (.load (← address var))
    return .word operand
  | .print value => do
    let value ← asWord block (← expr block value)
    let operand ← append block (.call printerName [.global formatName, value])
    return .word operand
  | .call callee args => do
    let args ← words block args
    let operand ← append block (.call callee args)
    return .word operand
  | .binary op left right => do
    let left ← asWord block (← expr block left)
    let right ← asWord block (← expr block right)
    match op with
    | .arith op => return .word (← append block (.arith (arithOf op) left right))
    | .compare op => return .truth (← append block (.compare (conditionOf op) left right))

/-- The values of expressions, from left to right, as integers. -/
def words (block : BlockId) : List Scoped.Expr → Build (List Operand)
  | [] => return []
  | value :: values => do
    let operand ← asWord block (← expr block value)
    let operands ← words block values
    return operand :: operands

end

def word (block : BlockId) (value : Scoped.Expr) : Build Operand := do
  asWord block (← expr block value)

def truth (block : BlockId) (value : Scoped.Expr) : Build Operand := do
  asTruth block (← expr block value)

/-- Computes a value and stores it in a new slot. -/
def declare (block : BlockId) (value : Scoped.Expr) : Build Unit := do
  let operand ← word block value
  store block (← newSlot) operand

def assign (block : BlockId) (var : Scoped.Var) (value : Scoped.Expr) : Build Unit := do
  let target ← address var
  let operand ← word block value
  store block target operand

/-- Goes to a block if control falls through; tells whether it does. -/
def join (target : BlockId) : Flow → Build Bool
  | .falls block => do
    terminate block (.jump target)
    return true
  | .leaves => return false

/-- Leaves the block for a target of the enclosing loop. -/
def leave (block : BlockId) (target : Option BlockId) : Build Flow := do
  match target with
  | some target => terminate block (.jump target)
  | none => pure ()
  return .leaves

/-- Tests a condition and lowers both arms, each in a block of its own; tells whether control reaches
`merge` from one of them. -/
def arms (merge block : BlockId) (condition : Scoped.Expr) (first : BlockId → Build Flow)
    (second : BlockId → Build Bool) : Build Bool := do
  let condition ← truth block condition
  let yes ← create "if.then"
  let no ← create "if.else"
  terminate block (.branch condition yes no)
  start yes
  let reached ← join merge (← first yes)
  start no
  let reachedToo ← second no
  return reached || reachedToo

mutual

def stmt (targets : Option Targets) (block : BlockId) : Scoped.Stmt → Build Flow
  | .declare _ value => do
    declare block value
    return .falls block
  | .assign var value => do
    assign block var value
    return .falls block
  | .return value => do
    let operand ← word block value
    terminate block (.ret operand)
    return .leaves
  | .expr value => do
    let _ ← expr block value
    return .falls block
  | .if condition body rest => do
    let merge ← create "if.end"
    let reached ← arms merge block condition
      (fun yes => stmts targets (.falls yes) body)
      (fun no => tail targets merge no rest)
    start merge
    if reached then
      return .falls merge
    else
      terminate merge .unreachable
      return .leaves
  | .while condition body => do
    let head ← create "while.cond"
    let inner ← create "while.body"
    let exit ← create "while.end"
    terminate block (.jump head)
    start head
    let condition ← truth head condition
    terminate head (.branch condition inner exit)
    start inner
    let _ ← join head (← stmts (some ⟨exit, head⟩) (.falls inner) body)
    start exit
    return .falls exit
  | .for _ init condition var update body => do
    declare block init
    let head ← create "for.cond"
    let inner ← create "for.body"
    let next ← create "for.iter"
    let exit ← create "for.end"
    terminate block (.jump head)
    start head
    let condition ← truth head condition
    terminate head (.branch condition inner exit)
    start inner
    let _ ← join next (← stmts (some ⟨exit, next⟩) (.falls inner) body)
    start next
    assign next var update
    terminate next (.jump head)
    start exit
    return .falls exit
  | .break => leave block (targets.map Targets.exit)
  | .continue => leave block (targets.map Targets.next)

/-- Lowers what follows the first body of an `if`; tells whether control reaches `merge`. -/
def tail (targets : Option Targets) (merge block : BlockId) : Scoped.Tail → Build Bool
  | .none => do
    terminate block (.jump merge)
    return true
  | .elseIf condition body rest =>
    arms merge block condition
      (fun yes => stmts targets (.falls yes) body)
      (fun no => tail targets merge no rest)
  | .else body => do
    join merge (← stmts targets (.falls block) body)

/-- Lowers statements one behind the other. What follows a jump goes to a block of its own that
nothing leads to. -/
def stmts (targets : Option Targets) (flow : Flow) : List Scoped.Stmt → Build Flow
  | [] => return flow
  | first :: rest => do
    let block ← match flow with
      | .falls block => pure block
      | .leaves => do
        let dead ← create "dead"
        start dead
        pure dead
    let flow ← stmt targets block first
    stmts targets flow rest

end

/-- Closes the function in progress, which returns zero where control falls off its end. -/
def finish (name : String) (flow : Flow) (builder : Builder Nat) : Except LowerError (Builder Nat) :=
  let builder :=
    match flow with
    | .falls block => builder.terminate block (.ret (.int 0))
    | .leaves => builder
  match builder.unterminated? with
  | some block => .error (.unterminatedBlock name block)
  | none => .ok builder.finishFunction

/-- Copies the parameters into slots of their own. -/
def params (block : BlockId) : List Reg → Build Unit
  | [] => return ()
  | reg :: regs => do
    store block (← newSlot) (.reg reg)
    params block regs

/-- Lowers a function: its parameters, then its body. -/
def function (builder : Builder Nat) (function : Scoped.Function) : Except LowerError (Builder Nat) :=
  let ((regs, entry), builder) := builder.startFunction function.name function.arity
  let body : Build Flow := do
    params entry regs
    stmts none (.falls entry) function.body
  let (flow, builder) := body.run builder
  finish function.name flow builder

/-- Computes the first values of globals, in order. -/
def initials (block : BlockId) : List (String × Scoped.Expr) → Build Unit
  | [] => return ()
  | (name, value) :: globals => do
    let operand ← word block value
    store block (.global name) operand
    initials block globals

/-- Lowers `main`: the first values of the globals, then its body. -/
def entryFunction (builder : Builder Nat) (program : Scoped.Program) : Except LowerError (Builder Nat) :=
  let ((_, entry), builder) := builder.startFunction entryName 0
  let body : Build Flow := do
    initials entry program.globals
    stmts none (.falls entry) program.main
  let (flow, builder) := body.run builder
  finish entryName flow builder

/-- A module with the printer, its format and the globals of a program, and no function yet. -/
def symbols (program : Scoped.Program) : Builder Nat :=
  let builder := (Builder.empty entryName).declareVariadic printerName [.ptr] .i32
  let builder := (builder.addText formatName printFormat).2
  program.globals.foldl (fun builder (name, _) => builder.addGlobal ⟨name, .i32, .int 0, false⟩)
    builder

/-- The module of a scoped program: `main` first, then the other functions in order. -/
def program (program : Scoped.Program) : Except LowerError Module := do
  let builder ← entryFunction (symbols program) program
  let builder ← program.functions.foldlM function builder
  return builder.finish

end Lower

/-- The intermediate code of a program, or the first fault in its names and jumps. -/
def lower (program : Program) : Except LowerError Ir.Module := do
  Lower.program (← resolve program)

end OliCompiler
