import OliCompiler.Parse.Cursor
import OliCompiler.Text.Decimal

/-!
Reading expressions. An operand is followed by the operators that bind at least as tightly as asked,
each with a right operand that binds tighter. The readers call each other within a budget that the
number of tokens ahead bounds; they answer as at the end of the file when it is spent, and with the
budget of `expr` it is spent only there.
-/

namespace OliCompiler.Parser

/-- Reads an integer literal, which is ahead. -/
def integer : Parser Expr := do
  let token ← advance
  match Decimal.int32? token.text.toList with
  | some value => return .int value token.span
  | none => fail (.invalidInteger token.text) token

mutual

/-- Reads an operand and what is joined to it by operators of at least a precedence. -/
def exprWithin (least : Nat) : Nat → Parser Expr
  | 0 => unexpected .expression
  | budget + 1 => do
    let left ← operandWithin budget
    climbWithin least left budget

/-- Reads the operators of at least a precedence behind `left`, folding to the left. -/
def climbWithin (least : Nat) (left : Expr) : Nat → Parser Expr
  | 0 => return left
  | budget + 1 => do
    match (← peek).kind.operator? with
    | none => return left
    | some op =>
      if op.precedence < least then
        return left
      else
        let _ ← advance
        let right ← exprWithin op.rightPrecedence budget
        climbWithin least (.binary op left right) budget

/-- Reads a parenthesised expression, an integer, a variable or a call. -/
def operandWithin : Nat → Parser Expr
  | 0 => unexpected .expression
  | budget + 1 => do
    match (← peek).kind with
    | .openParen =>
      let _ ← advance
      let value ← exprWithin 0 budget
      let _ ← expect .closeParen
      return value
    | .integer => integer
    | .identifier =>
      let name ← ident
      if ← consume .openParen then
        let args ← argumentsWithin budget
        let close ← expect .closeParen
        return .call name args (name.span.merge close.span)
      else
        return .var name
    | _ => unexpected .expression

/-- Reads the arguments of a call up to its closing parenthesis; a comma may follow the last. -/
def argumentsWithin : Nat → Parser (List Expr)
  | 0 => unexpected .expression
  | budget + 1 => do
    if ← check .closeParen then
      return []
    else
      let arg ← exprWithin 0 budget
      if ← consume .comma then
        let args ← argumentsWithin budget
        return arg :: args
      else if ← check .closeParen then
        return [arg]
      else
        unexpected .commaOrClose

end

/-- A budget that no reader of expressions spends before the end of the file. -/
def exprBudget (cursor : Cursor) : Nat := 3 * cursor.ahead.length + 2

/-- Reads an expression. -/
def expr : Parser Expr := do
  exprWithin 0 (exprBudget (← get))

end OliCompiler.Parser
