import OliCompiler.Parse.Stmt

/-!
Reading programs: functions and variables in any order. The function `main` is kept apart; it is
unique and takes no parameters.
-/

namespace OliCompiler

namespace Parser

/-- Reads declared names up to a closing parenthesis; a comma may follow the last. -/
def paramsWithin : Nat → Parser (List Ident)
  | 0 => unexpected .identifier
  | budget + 1 => do
    if ← check .closeParen then
      return []
    else
      let name ← declaredName .parameter
      if ← consume .comma then
        let names ← paramsWithin budget
        return name :: names
      else
        return [name]

/-- Reads the parameters of a function with their parentheses. -/
def params : Parser (List Ident) := do
  let _ ← expect .openParen
  let names ← paramsWithin ((← get).ahead.length + 1)
  let _ ← expect .closeParen
  return names

/-- Reads a function definition. -/
def function : Parser Function := do
  let start ← expect (.keyword .fn)
  let name ← declaredName .function
  let params ← params
  let (body, close) ← block false
  return ⟨name, params, body, start.span.merge close⟩

/-- Adds a function to a program, apart if it is `main`. -/
def addFunction (program : Program) (function : Function) : Parser Program := do
  if function.name.name = "main" then
    let line := (← get).lineOf function.name.span
    if program.main.isSome then
      throw ⟨.duplicateMain, line, function.name.span⟩
    match function.params.head?, function.params.getLast? with
    | some first, some last => throw ⟨.mainWithParams, line, first.span.merge last.span⟩
    | _, _ => return { program with main := some function }
  else
    return { program with functions := program.functions ++ [function] }

/-- Reads definitions to the end of the file and adds them to a program. -/
def itemsWithin (program : Program) : Nat → Parser Program
  | 0 => return program
  | budget + 1 => do
    let token ← peek
    match token.kind with
    | .endOfFile => return program
    | .keyword .fn =>
      let program ← addFunction program (← function)
      itemsWithin program budget
    | .keyword .let =>
      let binding ← letDeclaration
      itemsWithin { program with globals := program.globals ++ [binding] } budget
    | found => fail (.topLevel found) token

/-- Reads a program up to the end of the file. -/
def program : Parser Program := do
  itemsWithin .empty ((← get).ahead.length + 1)

end Parser

/-- The program that a list of tokens spells, or the first fault in it. -/
def parse (tokens : List Token) : Except ParseError Program :=
  match Parser.program (.ofTokens tokens) with
  | .ok program _ => .ok program
  | .error error _ => .error error

end OliCompiler
