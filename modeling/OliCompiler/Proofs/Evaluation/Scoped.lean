import OliCompiler.Language
import OliCompiler.Proofs.Evaluation.Basic
import OliCompiler.Scoped

/-!
Direct evaluation of scoped trees. Locals go by their numbers.
-/

namespace OliCompiler.Scoped

open Evaluation

section

variable (rules : Rules) (calls : Calls) (function : String)

/-- The value of a variable. -/
def Var.evaluate (locals : Nat → Option Int32) (world : World) : Var → Except Stop Int32
  | .local slot => rules.read (locals slot)
  | .global name => .ok (world.globals name)

/-- The state behind an assignment to a variable. -/
def Var.set (value : Int32) (state : State Nat) : Var → State Nat
  | .local slot => state.setLocal slot value
  | .global name => state.setGlobal name value

mutual

def Expr.evaluate (locals : Nat → Option Int32) : Expr → World → Except Stop (Int32 × World)
  | .int value, world => .ok (value, world)
  | .var place, world => do
    let value ← place.evaluate rules locals world
    return (value, world)
  | .print value, world => do
    let (value, world) ← value.evaluate locals world
    return printLine value world
  | .call callee args, world => do
    let (values, world) ← Expr.evaluateAll locals args world
    calls callee values world
  | .binary op left right, world => do
    let (a, world) ← left.evaluate locals world
    let (b, world) ← right.evaluate locals world
    let value ← operate function op a b
    return (value, world)

def Expr.evaluateAll (locals : Nat → Option Int32) :
    List Expr → World → Except Stop (List Int32 × World)
  | [], world => .ok ([], world)
  | expr :: exprs, world => do
    let (value, world) ← expr.evaluate locals world
    let (values, world) ← Expr.evaluateAll locals exprs world
    return (value :: values, world)

end

/-- The value of an expression in a state. -/
def Expr.evaluateIn (expr : Expr) (state : State Nat) : Except Stop (Int32 × State Nat) := do
  let (value, world) ← expr.evaluate rules calls function state.locals state.world
  return (value, { state with world })

/-- Assigns the value of an expression to a variable. -/
def Var.assign (var : Var) (value : Expr) (state : State Nat) : Except Stop (State Nat) := do
  let (value, state) ← value.evaluateIn rules calls function state
  return var.set value state

mutual

def Stmt.evaluate : Stmt → State Nat → Except Stop (Exit × State Nat)
  | .declare slot value, state => do
    let state ← (Var.local slot).assign rules calls function value state
    return (.next, state)
  | .assign var value, state => do
    let state ← var.assign rules calls function value state
    return (.next, state)
  | .return value, state => do
    let (value, state) ← value.evaluateIn rules calls function state
    return (.returned value, state)
  | .expr value, state => do
    let (_, state) ← value.evaluateIn rules calls function state
    return (.next, state)
  | .if condition body tail, state => do
    let (value, state) ← condition.evaluateIn rules calls function state
    if value = 0 then
      tail.evaluate state
    else
      Stmt.evaluateAll body state
  | .while condition body, state =>
    loop (condition.evaluateIn rules calls function) (Stmt.evaluateAll body) pure rules.rounds state
  | .for slot init condition var update body, state => do
    let state ← (Var.local slot).assign rules calls function init state
    loop (condition.evaluateIn rules calls function) (Stmt.evaluateAll body)
      (var.assign rules calls function update) rules.rounds state
  | .break, state => .ok (.broke, state)
  | .continue, state => .ok (.continued, state)

def Tail.evaluate : Tail → State Nat → Except Stop (Exit × State Nat)
  | .none, state => .ok (.next, state)
  | .elseIf condition body tail, state => do
    let (value, state) ← condition.evaluateIn rules calls function state
    if value = 0 then
      tail.evaluate state
    else
      Stmt.evaluateAll body state
  | .else body, state => Stmt.evaluateAll body state

/-- Evaluates statements up to the first that does not lead to the next one. -/
def Stmt.evaluateAll : List Stmt → State Nat → Except Stop (Exit × State Nat)
  | [], state => .ok (.next, state)
  | stmt :: stmts, state => do
    let (exit, state) ← stmt.evaluate state
    match exit with
    | .next => Stmt.evaluateAll stmts state
    | exit => return (exit, state)

end

/-- Evaluates the body of a function whose parameters have values; gives its result. -/
def Stmt.evaluateBody (args : List Int32) (body : List Stmt) (world : World) :
    Except Stop (Int32 × World) := do
  let (exit, state) ← Stmt.evaluateAll rules calls function body ⟨fun slot => args[slot]?, world⟩
  return (exit.result, state.world)

/-- Assigns their first values to globals, in order. -/
def Expr.evaluateGlobals : List (String × Expr) → World → Except Stop World
  | [], world => .ok world
  | (name, value) :: globals, world => do
    let (value, world) ← value.evaluate rules calls function (fun _ => none) world
    Expr.evaluateGlobals globals (world.setGlobal name value)

end

/-- Calls of functions while so many further calls may be in progress. -/
def Function.evaluate (rules : Rules) (functions : List Function) : Nat → Calls
  | 0, _, _, _ => .error (.fault (.depthLimit rules.maxDepth))
  | depth + 1, name, args, world =>
    match functions.find? fun function => function.name = name with
    | none => .error (.fault (.unknownFunction name))
    | some function =>
      if args.length = function.arity then
        Stmt.evaluateBody rules (Function.evaluate rules functions depth) name args function.body world
      else
        .error (.fault (.malformed name (.argumentCount function.arity args.length)))

/-- The outcome of a program: the first values of the globals, then the body of `main`. -/
def Program.evaluate (rules : Rules) (program : Program) : Except Stop Machine.Execution :=
  match rules.maxDepth with
  | 0 => .error (.fault (.depthLimit rules.maxDepth))
  | depth + 1 => do
    let calls := Function.evaluate rules program.functions depth
    let world ← Expr.evaluateGlobals rules calls entryName program.globals .initial
    let (value, world) ← Stmt.evaluateBody rules calls entryName [] program.main world
    return ⟨value, world.output⟩

end OliCompiler.Scoped
