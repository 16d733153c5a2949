import OliCompiler.Text.Layout
import OliCompiler.Text.Quoted
import OliCompiler.Tree

/-!
Syntax trees as outlines, with every field by name.
-/

namespace OliCompiler

open Text (Outline)

def Span.outline (span : Span) : Outline :=
  .record "Span" [("start", .atom (toString span.start)), ("end", .atom (toString span.stop))]

def Ident.outline (name : Ident) : Outline :=
  .record "Ident" [("name", .atom (Text.quote name.name)), ("span", name.span.outline)]

mutual

def Expr.outline : Expr → Outline
  | .int value span =>
    .record "Int" [("value", .atom (toString value.toInt)), ("span", span.outline)]
  | .var name => .wrapped "Ident" name.outline
  | .call callee args span =>
    .wrapped "Call" (.record "Call"
      [("callee", callee.outline), ("args", .list (Expr.outlines args)), ("span", span.outline)])
  | .binary op left right =>
    .record "Binary" [("op", .atom op.name), ("left", left.outline), ("right", right.outline)]

def Expr.outlines : List Expr → List Outline
  | [] => []
  | value :: values => value.outline :: Expr.outlines values

end

/-- A declaration. -/
def Binding.declarationOutline (binding : Binding) : Outline :=
  .record "VarDecl" [("name", binding.name.outline), ("value", binding.value.outline)]

/-- An assignment. -/
def Binding.assignmentOutline (binding : Binding) : Outline :=
  .record "Assignment" [("target", binding.name.outline), ("value", binding.value.outline)]

/-- An `if`, from the outlines of its body and of what follows the body. -/
def ifOutline (condition : Expr) (body : List Outline) (tail : Option Outline) : Outline :=
  .record "IfStmt" [("condition", condition.outline), ("then_body", .list body),
    ("else_branch", .option tail)]

mutual

def Stmt.outline : Stmt → Outline
  | .declare binding => .wrapped "Let" binding.declarationOutline
  | .assign binding => .wrapped "Assign" binding.assignmentOutline
  | .return value => .wrapped "Return" value.outline
  | .expr value => .wrapped "Expr" value.outline
  | .if condition body tail =>
    .wrapped "If" (ifOutline condition (Stmt.outlines body) tail.outline?)
  | .while condition body =>
    .wrapped "While" (.record "WhileLoop"
      [("condition", condition.outline), ("body", .list (Stmt.outlines body))])
  | .for init condition update body =>
    .wrapped "For" (.record "ForLoop"
      [("init", init.declarationOutline), ("condition", condition.outline),
        ("iterator", update.assignmentOutline), ("body", .list (Stmt.outlines body))])
  | .break span => .wrapped "Break" span.outline
  | .continue span => .wrapped "Continue" span.outline

def Tail.outline? : Tail → Option Outline
  | .none => none
  | .elseIf condition body tail =>
    some (.wrapped "ElseIf" (ifOutline condition (Stmt.outlines body) tail.outline?))
  | .else body => some (.wrapped "Else" (.list (Stmt.outlines body)))

def Stmt.outlines : List Stmt → List Outline
  | [] => []
  | stmt :: stmts => stmt.outline :: Stmt.outlines stmts

end

def Function.outline (function : Function) : Outline :=
  .record "Function" [("name", function.name.outline),
    ("params", .list (function.params.map Ident.outline)),
    ("body", .list (Stmt.outlines function.body)), ("span", function.span.outline)]

def Program.outline (program : Program) : Outline :=
  .record "Program" [("functions", .list (program.functions.map Function.outline)),
    ("globals", .list (program.globals.map Binding.declarationOutline)),
    ("main", .option (program.main.map Function.outline))]

end OliCompiler
