import OliCompiler.Language
import OliCompiler.Lower.Error
import OliCompiler.Scoped
import OliCompiler.Token
import OliCompiler.Tree

/-!
Settling the names of a program. A function has one scope, which grows with each declaration met; a
name means the local declared before it or else the global. Faults are found in this order: the lack
of `main`, the functions, the globals, the initial values, the body of `main`, the other bodies, and
inside a body from left to right, a value before the name that it is declared for and the target of an
assignment before its value.
-/

namespace OliCompiler

/-- The names known in all of a program: its functions with their arities, and its globals. -/
structure Symbols where
  functions : List (String × Nat)
  globals : List String
deriving DecidableEq, Repr

/-- The locals declared so far in a function, in order. -/
abbrev Locals := List String

/-- Whether a module has a symbol of the name besides the program's functions and globals. -/
def isRuntimeSymbol (name : String) : Bool :=
  name = entryName || name = printerName

/-- The arities of functions, added to those known. -/
def declareFunctions (known : List (String × Nat)) :
    List Function → Except LowerError (List (String × Nat))
  | [] => .ok known
  | function :: functions =>
    let name := function.name.name
    let span := function.name.span
    if isReserved name then .error (.reservedName name span)
    else if isRuntimeSymbol name then .error (.symbolClash name span)
    else if (known.lookup name).isSome then .error (.duplicateFunction name span)
    else declareFunctions (known ++ [(name, function.arity)]) functions

/-- The names of globals, added to those known. -/
def declareGlobals (functions : List (String × Nat)) (known : List String) :
    List Binding → Except LowerError (List String)
  | [] => .ok known
  | binding :: bindings =>
    let name := binding.name.name
    let span := binding.name.span
    if isReserved name then .error (.reservedName name span)
    else if isRuntimeSymbol name || (functions.lookup name).isSome then
      .error (.symbolClash name span)
    else if known.contains name then .error (.alreadyDeclared name span)
    else declareGlobals functions (known ++ [name]) bindings

/-- Declares a local behind those declared so far. -/
def declareLocal (locals : Locals) (name : Ident) : Except LowerError Locals :=
  if isReserved name.name then .error (.reservedName name.name name.span)
  else if locals.contains name.name then .error (.alreadyDeclared name.name name.span)
  else .ok (locals ++ [name.name])

/-- Declares the parameters of a function. -/
def declareParams (locals : Locals) : List Ident → Except LowerError Locals
  | [] => .ok locals
  | param :: params => do
    let locals ← declareLocal locals param
    declareParams locals params

/-- What a name means. -/
def resolveVar (symbols : Symbols) (locals : Locals) (name : Ident) : Except LowerError Scoped.Var :=
  match locals.idxOf? name.name with
  | some slot => .ok (.local slot)
  | none =>
    if symbols.globals.contains name.name then .ok (.global name.name)
    else .error (.undefinedVariable name.name name.span)

/-- Requires a number of arguments of a call. -/
def checkArity (callee : Ident) (span : Span) (expected found : Nat) : Except LowerError Unit :=
  if found = expected then .ok ()
  else .error (.arityMismatch callee.name expected found span)

mutual

def resolveExpr (symbols : Symbols) (locals : Locals) :
    Expr → Except LowerError Scoped.Expr
  | .int value _ => .ok (.int value)
  | .var name => do
    let var ← resolveVar symbols locals name
    return .var var
  | .call callee args span =>
    if callee.name = printName then do
      checkArity callee span 1 args.length
      match ← resolveArgs symbols locals args with
      | [value] => return .print value
      | _ => .error (.arityMismatch callee.name 1 args.length span)
    else
      match symbols.functions.lookup callee.name with
      | none => .error (.undefinedFunction callee.name callee.span)
      | some arity => do
        checkArity callee span arity args.length
        let args ← resolveArgs symbols locals args
        return .call callee.name args
  | .binary op left right => do
    let left ← resolveExpr symbols locals left
    let right ← resolveExpr symbols locals right
    return .binary op left right

def resolveArgs (symbols : Symbols) (locals : Locals) :
    List Expr → Except LowerError (List Scoped.Expr)
  | [] => .ok []
  | arg :: args => do
    let arg ← resolveExpr symbols locals arg
    let args ← resolveArgs symbols locals args
    return arg :: args

end

/-- Settles a declaration: its value first, then the name. Gives the number of the new local. -/
def resolveDeclaration (symbols : Symbols) (locals : Locals) (binding : Binding) :
    Except LowerError (Nat × Scoped.Expr × Locals) := do
  let value ← resolveExpr symbols locals binding.value
  let declared ← declareLocal locals binding.name
  return (locals.length, value, declared)

/-- Settles an assignment: its target first, then the value. -/
def resolveAssignment (symbols : Symbols) (locals : Locals) (binding : Binding) :
    Except LowerError (Scoped.Var × Scoped.Expr) := do
  let var ← resolveVar symbols locals binding.name
  let value ← resolveExpr symbols locals binding.value
  return (var, value)

mutual

/-- Settles a statement; gives the locals declared behind it. -/
def resolveStmt (symbols : Symbols) (inLoop : Bool) (locals : Locals) :
    Stmt → Except LowerError (Scoped.Stmt × Locals)
  | .declare binding => do
    let (slot, value, locals) ← resolveDeclaration symbols locals binding
    return (.declare slot value, locals)
  | .assign binding => do
    let (var, value) ← resolveAssignment symbols locals binding
    return (.assign var value, locals)
  | .return value => do
    let value ← resolveExpr symbols locals value
    return (.return value, locals)
  | .expr value => do
    let value ← resolveExpr symbols locals value
    return (.expr value, locals)
  | .if condition body tail => do
    let condition ← resolveExpr symbols locals condition
    let (body, locals) ← resolveStmts symbols inLoop locals body
    let (tail, locals) ← resolveTail symbols inLoop locals tail
    return (.if condition body tail, locals)
  | .while condition body => do
    let condition ← resolveExpr symbols locals condition
    let (body, locals) ← resolveStmts symbols true locals body
    return (.while condition body, locals)
  | .for init condition update body => do
    let (slot, init, locals) ← resolveDeclaration symbols locals init
    let condition ← resolveExpr symbols locals condition
    let (body, locals) ← resolveStmts symbols true locals body
    let (var, update) ← resolveAssignment symbols locals update
    return (.for slot init condition var update body, locals)
  | .break span => if inLoop then .ok (.break, locals) else .error (.breakOutsideLoop span)
  | .continue span =>
    if inLoop then .ok (.continue, locals) else .error (.continueOutsideLoop span)

def resolveTail (symbols : Symbols) (inLoop : Bool) (locals : Locals) :
    Tail → Except LowerError (Scoped.Tail × Locals)
  | .none => .ok (.none, locals)
  | .elseIf condition body tail => do
    let condition ← resolveExpr symbols locals condition
    let (body, locals) ← resolveStmts symbols inLoop locals body
    let (tail, locals) ← resolveTail symbols inLoop locals tail
    return (.elseIf condition body tail, locals)
  | .else body => do
    let (body, locals) ← resolveStmts symbols inLoop locals body
    return (.else body, locals)

def resolveStmts (symbols : Symbols) (inLoop : Bool) (locals : Locals) :
    List Stmt → Except LowerError (List Scoped.Stmt × Locals)
  | [] => .ok ([], locals)
  | stmt :: stmts => do
    let (stmt, locals) ← resolveStmt symbols inLoop locals stmt
    let (stmts, locals) ← resolveStmts symbols inLoop locals stmts
    return (stmt :: stmts, locals)

end

def resolveFunction (symbols : Symbols) (function : Function) :
    Except LowerError Scoped.Function := do
  let locals ← declareParams [] function.params
  let (body, _) ← resolveStmts symbols false locals function.body
  return ⟨function.name.name, function.arity, body⟩

def resolveGlobal (symbols : Symbols) (binding : Binding) :
    Except LowerError (String × Scoped.Expr) := do
  let value ← resolveExpr symbols [] binding.value
  return (binding.name.name, value)

/-- The scoped tree of a program, or its first fault. -/
def resolve (program : Program) : Except LowerError Scoped.Program := do
  match program.main with
  | none => .error .missingMain
  | some main =>
    let functions ← declareFunctions [] program.functions
    let globals ← declareGlobals functions [] program.globals
    let symbols : Symbols := ⟨functions, globals⟩
    let initial ← program.globals.mapM (resolveGlobal symbols)
    let (body, _) ← resolveStmts symbols false [] main.body
    let functions ← program.functions.mapM (resolveFunction symbols)
    return ⟨initial, body, functions⟩

end OliCompiler
