import OliCompiler.Parse.Expr

/-!
Reading statements. Bodies in braces hold statements, and `break` and `continue` may stand only where
a loop encloses them. Budgets are those of expressions: they bound the nesting by the tokens ahead.
-/

namespace OliCompiler.Parser

variable {α : Type}

/-- Reads `name = value`, declaring the name. -/
def declaration : Parser Binding := do
  let name ← declaredName .variable
  let _ ← expect .assign
  let value ← expr
  return ⟨name, value⟩

/-- Reads `name = value`, assigning to the name. -/
def assignment : Parser Binding := do
  let name ← ident
  let _ ← expect .assign
  let value ← expr
  return ⟨name, value⟩

/-- Reads a declaration with its keyword and its semicolon. -/
def letDeclaration : Parser Binding := do
  let _ ← expect (.keyword .let)
  let binding ← declaration
  let _ ← expect .semicolon
  return binding

/-- Reads what stands between braces; gives it with the span of the closing brace. -/
def braced (content : Parser α) : Parser (α × Span) := do
  let _ ← expect .openBrace
  let value ← content
  let close ← expect .closeBrace
  return (value, close.span)

/-- Reads `break` or `continue`, which is ahead, through its semicolon. -/
def jump (word : Keyword) (inLoop : Bool) (stmt : Span → Stmt) : Parser Stmt := do
  let token ← advance
  if inLoop then
    let _ ← expect .semicolon
    return stmt token.span
  else
    fail (.outsideLoop word) token

/-- Reads an expression and a semicolon. -/
def exprThen (stmt : Expr → Stmt) : Parser Stmt := do
  let value ← expr
  let _ ← expect .semicolon
  return stmt value

mutual

/-- Reads a statement. -/
def stmtWithin (inLoop : Bool) : Nat → Parser Stmt
  | 0 => unexpected .expression
  | budget + 1 => do
    match (← peek).kind with
    | .keyword .if =>
      let _ ← advance
      let condition ← expr
      let (body, _) ← braced (stmtsWithin inLoop budget)
      let tail ← tailWithin inLoop budget
      return .if condition body tail
    | .keyword .return =>
      let _ ← advance
      exprThen .return
    | .keyword .let =>
      let binding ← letDeclaration
      return .declare binding
    | .keyword .for =>
      let _ ← advance
      let _ ← expect .openParen
      let _ ← consume (.keyword .let)
      let init ← declaration
      let _ ← expect .semicolon
      let condition ← expr
      let _ ← expect .semicolon
      let update ← assignment
      let _ ← expect .closeParen
      let (body, _) ← braced (stmtsWithin true budget)
      return .for init condition update body
    | .keyword .while =>
      let _ ← advance
      let _ ← expect .openParen
      let condition ← expr
      let _ ← expect .closeParen
      let (body, _) ← braced (stmtsWithin true budget)
      return .while condition body
    | .keyword .break => jump .break inLoop .break
    | .keyword .continue => jump .continue inLoop .continue
    | .identifier =>
      if (← peekFollowing).kind = .assign then
        let binding ← assignment
        let _ ← expect .semicolon
        return .assign binding
      else
        exprThen .expr
    | _ => exprThen .expr

/-- Reads statements up to a closing brace or the end of the file. -/
def stmtsWithin (inLoop : Bool) : Nat → Parser (List Stmt)
  | 0 => return []
  | budget + 1 => do
    match (← peek).kind with
    | .closeBrace | .endOfFile => return []
    | _ =>
      let stmt ← stmtWithin inLoop budget
      let stmts ← stmtsWithin inLoop budget
      return stmt :: stmts

/-- Reads what follows the body of an `if`. -/
def tailWithin (inLoop : Bool) : Nat → Parser Tail
  | 0 => return .none
  | budget + 1 => do
    if ← consume (.keyword .else) then
      if ← consume (.keyword .if) then
        let condition ← expr
        let (body, _) ← braced (stmtsWithin inLoop budget)
        let tail ← tailWithin inLoop budget
        return .elseIf condition body tail
      else
        let (body, _) ← braced (stmtsWithin inLoop budget)
        return .else body
    else
      return .none

end

/-- Reads a block: statements in braces, with the span of the closing brace. -/
def block (inLoop : Bool) : Parser (List Stmt × Span) := do
  let budget := 2 * (← get).ahead.length + 2
  braced (stmtsWithin inLoop budget)

end OliCompiler.Parser
