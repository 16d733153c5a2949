import OliCompiler.Language
import OliCompiler.Proofs.Evaluation.Basic
import OliCompiler.Tree

/-!
Direct evaluation of syntax trees. Locals go by their names. A name means the local if the function
has declared it earlier in the text, whether or not that declaration was reached, and otherwise the
global.
-/

namespace OliCompiler

open Evaluation

mutual

/-- The locals that a statement declares, in order. -/
def Stmt.declared : Stmt → List String
  | .declare binding => [binding.name.name]
  | .if _ body tail => Stmt.declaredAll body ++ tail.declared
  | .while _ body => Stmt.declaredAll body
  | .for init _ _ body => init.name.name :: Stmt.declaredAll body
  | .assign _ | .return _ | .expr _ | .break _ | .continue _ => []

def Tail.declared : Tail → List String
  | .none => []
  | .elseIf _ body tail => Stmt.declaredAll body ++ tail.declared
  | .else body => Stmt.declaredAll body

def Stmt.declaredAll : List Stmt → List String
  | [] => []
  | stmt :: stmts => stmt.declared ++ Stmt.declaredAll stmts

end

section

variable (rules : Rules) (calls : Calls) (function : String)

mutual

/-- The value of an expression where the locals `scope` are declared. Operands and arguments are
evaluated from left to right. -/
def Expr.evaluate (scope : List String) (locals : String → Option Int32) :
    Expr → World → Except Stop (Int32 × World)
  | .int value _, world => .ok (value, world)
  | .var name, world => do
    let value ←
      if name.name ∈ scope then rules.read (locals name.name) else .ok (world.globals name.name)
    return (value, world)
  | .call callee args _, world => do
    let (values, world) ← Expr.evaluateAll scope locals args world
    if callee.name = printName then
      match values with
      | [value] => return printLine value world
      | _ => .error (.fault (.malformed callee.name (.argumentCount 1 values.length)))
    else
      calls callee.name values world
  | .binary op left right, world => do
    let (a, world) ← left.evaluate scope locals world
    let (b, world) ← right.evaluate scope locals world
    let value ← operate function op a b
    return (value, world)

def Expr.evaluateAll (scope : List String) (locals : String → Option Int32) :
    List Expr → World → Except Stop (List Int32 × World)
  | [], world => .ok ([], world)
  | expr :: exprs, world => do
    let (value, world) ← expr.evaluate scope locals world
    let (values, world) ← Expr.evaluateAll scope locals exprs world
    return (value :: values, world)

end

/-- The value of an expression in a state. -/
def Expr.evaluateIn (scope : List String) (expr : Expr) (state : State String) :
    Except Stop (Int32 × State String) := do
  let (value, world) ← expr.evaluate rules calls function scope state.locals state.world
  return (value, { state with world })

/-- Assigns to what a name means. -/
def Binding.assign (scope : List String) (binding : Binding) (state : State String) :
    Except Stop (State String) := do
  let (value, state) ← binding.value.evaluateIn rules calls function scope state
  if binding.name.name ∈ scope then
    return state.setLocal binding.name.name value
  else
    return state.setGlobal binding.name.name value

/-- Assigns to the local of a name. -/
def Binding.declare (scope : List String) (binding : Binding) (state : State String) :
    Except Stop (State String) := do
  let (value, state) ← binding.value.evaluateIn rules calls function scope state
  return state.setLocal binding.name.name value

mutual

def Stmt.evaluate (scope : List String) : Stmt → State String → Except Stop (Exit × State String)
  | .declare binding, state => do
    let state ← binding.declare rules calls function scope state
    return (.next, state)
  | .assign binding, state => do
    let state ← binding.assign rules calls function scope state
    return (.next, state)
  | .return value, state => do
    let (value, state) ← value.evaluateIn rules calls function scope state
    return (.returned value, state)
  | .expr value, state => do
    let (_, state) ← value.evaluateIn rules calls function scope state
    return (.next, state)
  | .if condition body tail, state => do
    let (value, state) ← condition.evaluateIn rules calls function scope state
    if value = 0 then
      tail.evaluate (scope ++ Stmt.declaredAll body) state
    else
      Stmt.evaluateAll scope body state
  | .while condition body, state =>
    loop (condition.evaluateIn rules calls function scope) (Stmt.evaluateAll scope body) pure
      rules.rounds state
  | .for init condition update body, state => do
    let state ← init.declare rules calls function scope state
    let inner := scope ++ [init.name.name]
    loop (condition.evaluateIn rules calls function inner) (Stmt.evaluateAll inner body)
      (update.assign rules calls function (inner ++ Stmt.declaredAll body)) rules.rounds state
  | .break _, state => .ok (.broke, state)
  | .continue _, state => .ok (.continued, state)

def Tail.evaluate (scope : List String) : Tail → State String → Except Stop (Exit × State String)
  | .none, state => .ok (.next, state)
  | .elseIf condition body tail, state => do
    let (value, state) ← condition.evaluateIn rules calls function scope state
    if value = 0 then
      tail.evaluate (scope ++ Stmt.declaredAll body) state
    else
      Stmt.evaluateAll scope body state
  | .else body, state => Stmt.evaluateAll scope body state

/-- Evaluates statements up to the first that does not lead to the next one. -/
def Stmt.evaluateAll (scope : List String) :
    List Stmt → State String → Except Stop (Exit × State String)
  | [], state => .ok (.next, state)
  | stmt :: stmts, state => do
    let (exit, state) ← stmt.evaluate scope state
    match exit with
    | .next => Stmt.evaluateAll (scope ++ stmt.declared) stmts state
    | exit => return (exit, state)

end

/-- Evaluates the body of a function whose parameters have values; gives its result. -/
def Stmt.evaluateBody (params : List String) (args : List Int32) (body : List Stmt) (world : World) :
    Except Stop (Int32 × World) := do
  let locals := fun name => (params.zip args).lookup name
  let (exit, state) ← Stmt.evaluateAll rules calls function params body ⟨locals, world⟩
  return (exit.result, state.world)

/-- Assigns their first values to globals, in order. -/
def Binding.evaluateGlobals : List Binding → World → Except Stop World
  | [], world => .ok world
  | binding :: bindings, world => do
    let (value, world) ← binding.value.evaluate rules calls function [] (fun _ => none) world
    Binding.evaluateGlobals bindings (world.setGlobal binding.name.name value)

end

/-- Calls of functions while so many further calls may be in progress. -/
def Function.evaluate (rules : Rules) (functions : List Function) : Nat → Calls
  | 0, _, _, _ => .error (.fault (.depthLimit rules.maxDepth))
  | depth + 1, name, args, world =>
    match functions.find? fun function => function.name.name = name with
    | none => .error (.fault (.unknownFunction name))
    | some function =>
      if args.length = function.arity then
        Stmt.evaluateBody rules (Function.evaluate rules functions depth) name
          (function.params.map Ident.name) args function.body world
      else
        .error (.fault (.malformed name (.argumentCount function.arity args.length)))

/-- The outcome of a program: the first values of the globals, then the body of `main`, both of them
in one call. -/
def Program.evaluate (rules : Rules) (program : Program) : Except Stop Machine.Execution :=
  match program.main, rules.maxDepth with
  | none, _ => .error (.fault (.unknownFunction entryName))
  | some _, 0 => .error (.fault (.depthLimit rules.maxDepth))
  | some main, depth + 1 => do
    let calls := Function.evaluate rules program.functions depth
    let world ← Binding.evaluateGlobals rules calls entryName program.globals .initial
    let (value, world) ← Stmt.evaluateBody rules calls entryName [] [] main.body world
    return ⟨value, world.output⟩

end OliCompiler
