import OliCompiler.Resolve

/-!
The rules of scope, and the faults of a program that keeps them or not. A body is read as the list of
what it does with names and jumps, in the order in which it is lowered; a rule speaks of what stands
in that list, and of the names declared before.
-/

namespace OliCompiler

/-- What a body does with a name or a jump. -/
inductive Event where
  | declare (name : Ident)
  /-- A variable is read or assigned. -/
  | use (name : Ident)
  | call (callee : Ident) (count : Nat) (span : Span)
  | break (inLoop : Bool) (span : Span)
  | continue (inLoop : Bool) (span : Span)
deriving DecidableEq, Repr

/-- The name that an event declares, if it does. -/
def Event.declared : Event → List String
  | .declare name => [name.name]
  | _ => []

/-- The names that events declare, in order. -/
def declaredBy (events : List Event) : List String := events.flatMap Event.declared

mutual

/-- A callee and the number of its arguments come before the arguments. -/
def Expr.events : Expr → List Event
  | .int _ _ => []
  | .var name => [.use name]
  | .call callee args span => .call callee args.length span :: Expr.eventsOfAll args
  | .binary _ left right => left.events ++ right.events

def Expr.eventsOfAll : List Expr → List Event
  | [] => []
  | arg :: args => arg.events ++ Expr.eventsOfAll args

end

/-- A value comes before the name that it is declared for. -/
def Binding.declaration (binding : Binding) : List Event :=
  binding.value.events ++ [.declare binding.name]

/-- The target of an assignment comes before its value. -/
def Binding.assignment (binding : Binding) : List Event :=
  .use binding.name :: binding.value.events

mutual

def Stmt.events (inLoop : Bool) : Stmt → List Event
  | .declare binding => binding.declaration
  | .assign binding => binding.assignment
  | .return value => value.events
  | .expr value => value.events
  | .if condition body tail =>
    condition.events ++ (Stmt.eventsOfAll inLoop body ++ tail.events inLoop)
  | .while condition body => condition.events ++ Stmt.eventsOfAll true body
  | .for init condition update body =>
    init.declaration ++ (condition.events ++ (Stmt.eventsOfAll true body ++ update.assignment))
  | .break span => [.break inLoop span]
  | .continue span => [.continue inLoop span]

def Tail.events (inLoop : Bool) : Tail → List Event
  | .none => []
  | .elseIf condition body tail =>
    condition.events ++ (Stmt.eventsOfAll inLoop body ++ tail.events inLoop)
  | .else body => Stmt.eventsOfAll inLoop body

def Stmt.eventsOfAll (inLoop : Bool) : List Stmt → List Event
  | [] => []
  | stmt :: stmts => stmt.events inLoop ++ Stmt.eventsOfAll inLoop stmts

end

/-- The parameters of a function are the first names of its body. -/
def Function.events (function : Function) : List Event :=
  function.params.map .declare ++ Stmt.eventsOfAll false function.body

namespace Program

/-- The first values of the globals, the body of `main` and the other bodies, in order. -/
def bodies (program : Program) : List (List Event) :=
  program.globals.map (·.value.events) ++
    (program.main.toList.map (Stmt.eventsOfAll false ·.body) ++
      program.functions.map Function.events)

/-- The names that a program declares outside of bodies. -/
def symbols (program : Program) : Symbols where
  functions := program.functions.map fun function => (function.name.name, function.arity)
  globals := program.globals.map (·.name.name)

/-- Whether a program has a function of a name that takes so many arguments. -/
def Declares (program : Program) (callee : String) (count : Nat) : Prop :=
  ∃ function ∈ program.functions, function.name.name = callee ∧ function.arity = count

/-- Whether a callee takes so many arguments. `print` takes one, also if the program has a function of
that name. -/
def Callable (program : Program) (callee : String) (count : Nat) : Prop :=
  (callee = printName ∧ count = 1) ∨ (callee ≠ printName ∧ program.Declares callee count)

end Program

/-- Whether a body keeps the rules, given who takes how many arguments and which globals there are. -/
structure BodyScoped (callable : String → Nat → Prop) (globals : List String)
    (events : List Event) : Prop where
  unreserved : ∀ name, .declare name ∈ events → isReserved name.name = false
  distinct : (declaredBy events).Nodup
  known : ∀ before name after, events = before ++ .use name :: after →
    name.name ∈ declaredBy before ∨ name.name ∈ globals
  calls : ∀ callee count span, .call callee count span ∈ events → callable callee.name count
  breaks : ∀ inLoop span, .break inLoop span ∈ events → inLoop = true
  continues : ∀ inLoop span, .continue inLoop span ∈ events → inLoop = true

/-- Whether a name may be one of a function or a global. -/
structure Available (name : String) : Prop where
  unreserved : isReserved name = false
  notEntry : name ≠ entryName
  notPrinter : name ≠ printerName

/-- Whether a program keeps the rules, given who takes how many arguments. -/
structure Program.ScopedBy (program : Program) (callable : String → Nat → Prop) : Prop where
  main : program.main.isSome
  functions : ∀ function ∈ program.functions, Available function.name.name
  functionsDistinct : (program.functions.map (·.name.name)).Nodup
  globals : ∀ binding ∈ program.globals, Available binding.name.name
  globalsDistinct : (program.globals.map (·.name.name)).Nodup
  apart : ∀ binding ∈ program.globals, ∀ function ∈ program.functions,
    binding.name.name ≠ function.name.name
  bodies : ∀ events ∈ program.bodies, BodyScoped callable program.symbols.globals events

/-- Whether a program keeps the rules. The parameters of `main` play no part. -/
def Program.WellScoped (program : Program) : Prop := program.ScopedBy program.Callable

/-- The faults of items in order, each judged by the names that those before it declare. -/
def faultsAlong {α : Type} (declared : α → List String)
    (fault? : List String → α → Option LowerError) (known : List String) : List α → List LowerError
  | [] => []
  | item :: items =>
    (fault? known item).toList ++ faultsAlong declared fault? (known ++ declared item) items

/-- The fault of the name of a function behind those known. -/
def functionFault? (known : List String) (name : Ident) : Option LowerError :=
  if isReserved name.name then some (.reservedName name.name name.span)
  else if name.name = entryName ∨ name.name = printerName then
    some (.symbolClash name.name name.span)
  else if name.name ∈ known then some (.duplicateFunction name.name name.span)
  else none

/-- The fault of the name of a global behind those known. -/
def globalFault? (functions known : List String) (name : Ident) : Option LowerError :=
  if isReserved name.name then some (.reservedName name.name name.span)
  else if name.name = entryName ∨ name.name = printerName ∨ name.name ∈ functions then
    some (.symbolClash name.name name.span)
  else if name.name ∈ known then some (.alreadyDeclared name.name name.span)
  else none

/-- The fault of an event where some locals are declared. -/
def Event.fault? (symbols : Symbols) (locals : List String) : Event → Option LowerError
  | .declare name =>
    if isReserved name.name then some (.reservedName name.name name.span)
    else if name.name ∈ locals then some (.alreadyDeclared name.name name.span)
    else none
  | .use name =>
    if name.name ∈ locals ∨ name.name ∈ symbols.globals then none
    else some (.undefinedVariable name.name name.span)
  | .call callee count span =>
    if callee.name = printName then
      if count = 1 then none else some (.arityMismatch callee.name 1 count span)
    else
      match symbols.functions.lookup callee.name with
      | none => some (.undefinedFunction callee.name callee.span)
      | some arity =>
        if count = arity then none else some (.arityMismatch callee.name arity count span)
  | .break inLoop span => if inLoop then none else some (.breakOutsideLoop span)
  | .continue inLoop span => if inLoop then none else some (.continueOutsideLoop span)

/-- The faults of a body behind some locals. -/
def bodyFaults (symbols : Symbols) (locals : List String) (events : List Event) :
    List LowerError :=
  faultsAlong Event.declared (Event.fault? symbols) locals events

namespace Program

/-- The faults of the names of functions, then of globals. -/
def nameFaults (program : Program) : List LowerError :=
  let functions := program.functions.map (·.name)
  let globals := program.globals.map (·.name)
  faultsAlong (fun name => [name.name]) functionFault? [] functions ++
    faultsAlong (fun name => [name.name]) (globalFault? (functions.map Ident.name)) [] globals

/-- All faults of a program: that it has no `main`, then those of names, then those of bodies. -/
def faults (program : Program) : List LowerError :=
  (if program.main.isSome then [] else [.missingMain]) ++
    (program.nameFaults ++ program.bodies.flatMap (bodyFaults program.symbols []))

end Program

end OliCompiler
