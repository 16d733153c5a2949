import OliCompiler.Language

/-!
Scoped trees: programs in which every name is settled. A variable is a numbered local of its function
or a global, calls agree with the functions they name, and nothing refers to the source text.
-/

namespace OliCompiler.Scoped

/-- Locals are numbered in the order of their declarations in the function, parameters first. -/
inductive Var where
  | local (slot : Nat)
  | global (name : String)
deriving DecidableEq, Repr

inductive Expr where
  | int (value : Int32)
  | var (var : Var)
  /-- Prints the value on a line of its own. -/
  | print (value : Expr)
  | call (callee : String) (args : List Expr)
  | binary (op : BinaryOp) (left right : Expr)
deriving Repr, Inhabited

mutual

inductive Stmt where
  /-- Declares the local of a number and assigns to it. -/
  | declare (slot : Nat) (value : Expr)
  | assign (var : Var) (value : Expr)
  | return (value : Expr)
  | expr (value : Expr)
  | if (condition : Expr) (body : List Stmt) (tail : Tail)
  | while (condition : Expr) (body : List Stmt)
  /-- A loop that declares the local of a number, tests, runs the body and then assigns `update`. -/
  | for (slot : Nat) (init condition : Expr) (var : Var) (update : Expr) (body : List Stmt)
  | break
  | continue

/-- What follows the first body of an `if`. -/
inductive Tail where
  | none
  | elseIf (condition : Expr) (body : List Stmt) (tail : Tail)
  | else (body : List Stmt)

end

instance : Inhabited Stmt := ⟨.break⟩

instance : Inhabited Tail := ⟨.none⟩

structure Function where
  name : String
  arity : Nat
  body : List Stmt
deriving Inhabited

/-- A program: the globals with the expressions that give their first values, the body of `main`, and
the other functions. -/
structure Program where
  globals : List (String × Expr)
  main : List Stmt
  functions : List Function
deriving Inhabited

end OliCompiler.Scoped
