/-!
What the language fixes: the names that have a meaning of their own in programs and in the modules made from
them, and the binary operators of source text and syntax tree.
-/

namespace OliCompiler

/-- The function that a program starts with. -/
def entryName : String := "main"

/-- The function that prints an integer. -/
def printName : String := "print"

/-- The external function that does the printing. -/
def printerName : String := "printf"

/-- The global that holds the format for printing. -/
def formatName : String := ".fmt"

/-- The format for printing: an integer and a newline. -/
def printFormat : String := "%d\n"

/-- Operators that give an integer. -/
inductive Arith where
  | add
  | sub
  | mul
  | div
deriving DecidableEq, Repr

/-- Operators that give a truth value. -/
inductive Comparison where
  | eq
  | ne
  | lt
  | le
  | gt
  | ge
deriving DecidableEq, Repr

inductive BinaryOp where
  | arith (op : Arith)
  | compare (op : Comparison)
deriving DecidableEq, Repr

namespace Arith

/-- The sign in source text. -/
def symbol : Arith → String
  | add => "+"
  | sub => "-"
  | mul => "*"
  | div => "/"

/-- The name of the operator in a syntax tree. -/
def name : Arith → String
  | add => "Add"
  | sub => "Sub"
  | mul => "Mul"
  | div => "Div"

/-- Products bind tighter than sums. -/
def precedence : Arith → Nat
  | add | sub => 1
  | mul | div => 2

end Arith

namespace Comparison

/-- The sign in source text. -/
def symbol : Comparison → String
  | eq => "=="
  | ne => "!="
  | lt => "<"
  | le => "<="
  | gt => ">"
  | ge => ">="

/-- The name of the operator in a syntax tree. -/
def name : Comparison → String
  | eq => "Eq"
  | ne => "Ne"
  | lt => "Lt"
  | le => "Le"
  | gt => "Gt"
  | ge => "Ge"

end Comparison

namespace BinaryOp

def symbol : BinaryOp → String
  | arith op => op.symbol
  | compare op => op.symbol

def name : BinaryOp → String
  | arith op => op.name
  | compare op => op.name

/-- How tightly the operator binds: comparisons least, then sums, then products. -/
def precedence : BinaryOp → Nat
  | compare _ => 0
  | arith op => op.precedence

/-- Operators of one precedence group to the left, every one of them. -/
def groupsLeft : BinaryOp → Bool := fun _ => true

def isComparison : BinaryOp → Bool
  | compare _ => true
  | arith _ => false

/-- The loosest binding that a right operand may have without parentheses. -/
def rightPrecedence (op : BinaryOp) : Nat :=
  if op.groupsLeft then op.precedence + 1 else op.precedence

end BinaryOp

end OliCompiler
