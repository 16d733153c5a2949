import OliCompiler.Parse.Expr

/-!
Expressions read level by level. A comparison joins sums, a sum joins products and a product joins atoms,
each with the operators of its own level and to the left; inside an atom the reading starts again at the
level of comparisons.
-/

namespace OliCompiler.Parser.Layered

/-- Reads `{sign operand}` behind `left` in at most so many rounds, folding to the left. -/
def foldWithin (joins : BinaryOp → Bool) (operand : Parser Expr) (left : Expr) : Nat → Parser Expr
  | 0 => return left
  | rounds + 1 => do
    match (← peek).kind.operator? with
    | none => return left
    | some op =>
      if joins op then
        let _ ← advance
        let right ← operand
        foldWithin joins operand (.binary op left right) rounds
      else
        return left

/-- Reads `operand {sign operand}`. Every round passes a sign, so the tokens ahead bound them. -/
def level (joins : BinaryOp → Bool) (operand : Parser Expr) : Parser Expr := do
  let rounds := (← get).ahead.length
  let left ← operand
  foldWithin joins operand left rounds

/-- Reads the arguments of a call up to its closing parenthesis, each by `inner`; a comma may follow the
last. -/
def argumentsWithin (inner : Parser Expr) : Nat → Parser (List Expr)
  | 0 => unexpected .expression
  | rounds + 1 => do
    if ← check .closeParen then
      return []
    else
      let arg ← inner
      if ← consume .comma then
        let args ← argumentsWithin inner rounds
        return arg :: args
      else if ← check .closeParen then
        return [arg]
      else
        unexpected .commaOrClose

/-- Reads an atom, where `inner` reads what stands in parentheses. -/
def atom (inner : Parser Expr) : Parser Expr := do
  match (← peek).kind with
  | .openParen =>
    let _ ← advance
    let value ← inner
    let _ ← expect .closeParen
    return value
  | .integer => integer
  | .identifier =>
    let name ← ident
    if ← consume .openParen then
      let rounds := (← get).ahead.length + 1
      let args ← argumentsWithin inner rounds
      let close ← expect .closeParen
      return .call name args (name.span.merge close.span)
    else
      return .var name
  | _ => unexpected .expression

/-- Whether an operator joins atoms to a product. -/
def joinsAtoms : BinaryOp → Bool
  | .arith .mul | .arith .div => true
  | _ => false

/-- Whether an operator joins products to a sum. -/
def joinsTerms : BinaryOp → Bool
  | .arith .add | .arith .sub => true
  | _ => false

/-- Whether an operator joins sums to a comparison. -/
def joinsSums : BinaryOp → Bool
  | .compare _ => true
  | .arith _ => false

/-- `term = atom {(*|/) atom}` -/
def term (inner : Parser Expr) : Parser Expr := level joinsAtoms (atom inner)

/-- `additive = term {(+|-) term}` -/
def additive (inner : Parser Expr) : Parser Expr := level joinsTerms (term inner)

/-- `comparison = additive {(==|!=|<|>|<=|>=) additive}` -/
def comparison (inner : Parser Expr) : Parser Expr := level joinsSums (additive inner)

/-- Reads an expression whose parentheses are nested less deeply than `depth`. -/
def exprWithin : Nat → Parser Expr
  | 0 => unexpected .expression
  | depth + 1 => comparison (exprWithin depth)

/-- Reads an expression. Its parentheses are not nested more deeply than there are tokens ahead. -/
def expr : Parser Expr := do
  exprWithin ((← get).ahead.length + 1)

end OliCompiler.Parser.Layered
