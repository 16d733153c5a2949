import OliCompiler.Language
import OliCompiler.Source.Span

/-!
Syntax trees. Every value of the language is a 32-bit integer, so trees carry no types; identifiers,
integers and calls know where they stand in the source.
-/

namespace OliCompiler

/-- A name and where it is written. -/
structure Ident where
  name : String
  span : Span
deriving DecidableEq, Repr, Inhabited

inductive Expr where
  | int (value : Int32) (span : Span)
  | var (name : Ident)
  /-- A call; the span runs from the callee to the closing parenthesis. -/
  | call (callee : Ident) (args : List Expr) (span : Span)
  | binary (op : BinaryOp) (left right : Expr)
deriving Repr, Inhabited

namespace Expr

/-- Where the expression stands; an operation covers its operands, without parentheses around it. -/
def span : Expr → Span
  | int _ span => span
  | var name => name.span
  | call _ _ span => span
  | binary _ left right => left.span.merge right.span

end Expr

/-- A name and the expression that gives its value, in a declaration or an assignment. -/
structure Binding where
  name : Ident
  value : Expr
deriving Repr, Inhabited

mutual

inductive Stmt where
  | declare (binding : Binding)
  | assign (binding : Binding)
  | return (value : Expr)
  | expr (value : Expr)
  | if (condition : Expr) (body : List Stmt) (tail : Tail)
  | while (condition : Expr) (body : List Stmt)
  /-- A loop that declares `init`, tests, runs the body and then assigns `update`. -/
  | for (init : Binding) (condition : Expr) (update : Binding) (body : List Stmt)
  | break (span : Span)
  | continue (span : Span)

/-- What follows the first body of an `if`: nothing, a further condition, or the last body. -/
inductive Tail where
  | none
  | elseIf (condition : Expr) (body : List Stmt) (tail : Tail)
  | else (body : List Stmt)

end

instance : Inhabited Stmt := ⟨.break default⟩

instance : Inhabited Tail := ⟨.none⟩

/-- A function; the span runs from `fn` to the closing brace. -/
structure Function where
  name : Ident
  params : List Ident
  body : List Stmt
  span : Span
deriving Inhabited

/-- The number of arguments that a call of the function takes. -/
def Function.arity (function : Function) : Nat := function.params.length

/-- A program: its functions and globals in source order, and apart from them the function `main`. -/
structure Program where
  functions : List Function
  globals : List Binding
  main : Option Function
deriving Inhabited

namespace Program

def empty : Program := ⟨[], [], none⟩

end Program

end OliCompiler
