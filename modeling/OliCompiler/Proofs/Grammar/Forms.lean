import OliCompiler.Language
import OliCompiler.Proofs.Numerals
import OliCompiler.Tree

/-!
The grammar of the language over tokens, rule by rule. A form relates the tokens of a construct to its
tree, and every token of the one has its place in the other.
-/

namespace OliCompiler.Grammar

/-- The name that an identifier spells. -/
def nameOf (token : Token) : Ident := ⟨token.text, token.span⟩

/-- The level of an operator, from the loosest to the tightest. -/
def levelOf : BinaryOp → Nat
  | .compare .eq | .compare .ne | .compare .lt | .compare .gt | .compare .le | .compare .ge => 0
  | .arith .add | .arith .sub => 1
  | .arith .mul | .arith .div => 2

mutual

/-- The tokens of an expression of some level. Level 0 is that of comparisons, 1 of sums, 2 of products
and 3 of operands. The left side of an operator is of the operator's own level and the right side of
the next, so that operators of one level group to the left. -/
inductive ExprForm : Nat → List Token → Expr → Prop where
  | binary {op : BinaryOp} {sign : Token} {left right : List Token} {a b : Expr}
    (first : ExprForm (levelOf op) left a) (joins : sign.kind = .operator op)
    (second : ExprForm (levelOf op + 1) right b) :
    ExprForm (levelOf op) (left ++ sign :: right) (.binary op a b)
  | tighter {level : Nat} {tokens : List Token} {value : Expr} (loose : level < 3)
    (form : ExprForm (level + 1) tokens value) : ExprForm level tokens value
  | paren {opening closing : Token} {inside : List Token} {value : Expr}
    (opens : opening.kind = .openParen) (form : ExprForm 0 inside value)
    (closes : closing.kind = .closeParen) :
    ExprForm 3 (opening :: (inside ++ [closing])) value
  | int {token : Token} {value : Int32} (literal : token.kind = .integer)
    (denotes : Numeral token.text.toList value) :
    ExprForm 3 [token] (.int value token.span)
  | var {token : Token} (named : token.kind = .identifier) : ExprForm 3 [token] (.var (nameOf token))
  | call {token opening closing : Token} {inside : List Token} {args : List Expr}
    (named : token.kind = .identifier) (opens : opening.kind = .openParen)
    (form : ArgsForm inside args) (closes : closing.kind = .closeParen) :
    ExprForm 3 (token :: opening :: (inside ++ [closing]))
      (.call (nameOf token) args (token.span.merge closing.span))

/-- The tokens of the arguments of a call: expressions with commas between them, and perhaps one more
comma behind the last. -/
inductive ArgsForm : List Token → List Expr → Prop where
  | nil : ArgsForm [] []
  | last {tokens : List Token} {arg : Expr} (form : ExprForm 0 tokens arg) : ArgsForm tokens [arg]
  | cons {first rest : List Token} {comma : Token} {arg : Expr} {args : List Expr}
    (form : ExprForm 0 first arg) (separates : comma.kind = .comma) (others : ArgsForm rest args) :
    ArgsForm (first ++ comma :: rest) (arg :: args)

end

/-- The tokens of `name = value`. -/
inductive BindingForm : List Token → Binding → Prop where
  | mk {token sign : Token} {tokens : List Token} {value : Expr} (named : token.kind = .identifier)
    (assigns : sign.kind = .assign) (form : ExprForm 0 tokens value) :
    BindingForm (token :: sign :: tokens) ⟨nameOf token, value⟩

/-- The tokens of `let name = value;`. -/
inductive LetForm : List Token → Binding → Prop where
  | mk {word stop : Token} {tokens : List Token} {binding : Binding} (begins : word.kind = .keyword .let)
    (form : BindingForm tokens binding) (ends : stop.kind = .semicolon) :
    LetForm (word :: (tokens ++ [stop])) binding

/-- The word `let`, or nothing. -/
inductive OptionalLet : List Token → Prop where
  | absent : OptionalLet []
  | present {word : Token} (begins : word.kind = .keyword .let) : OptionalLet [word]

mutual

/-- The tokens of a statement. Jumps have a form inside loops only. -/
inductive StmtForm : Bool → List Token → Stmt → Prop where
  | declare {inLoop : Bool} {tokens : List Token} {binding : Binding} (form : LetForm tokens binding) :
    StmtForm inLoop tokens (.declare binding)
  | assign {inLoop : Bool} {stop : Token} {tokens : List Token} {binding : Binding}
    (form : BindingForm tokens binding) (ends : stop.kind = .semicolon) :
    StmtForm inLoop (tokens ++ [stop]) (.assign binding)
  | return {inLoop : Bool} {word stop : Token} {tokens : List Token} {value : Expr}
    (begins : word.kind = .keyword .return) (form : ExprForm 0 tokens value)
    (ends : stop.kind = .semicolon) :
    StmtForm inLoop (word :: (tokens ++ [stop])) (.return value)
  | expr {inLoop : Bool} {stop : Token} {tokens : List Token} {value : Expr}
    (form : ExprForm 0 tokens value) (ends : stop.kind = .semicolon) :
    StmtForm inLoop (tokens ++ [stop]) (.expr value)
  | if {inLoop : Bool} {word : Token} {test block rest : List Token} {condition : Expr}
    {body : List Stmt} {tail : Tail} {close : Span} (begins : word.kind = .keyword .if)
    (tests : ExprForm 0 test condition) (blocks : BlockForm inLoop block body close)
    (follows : TailForm inLoop rest tail) :
    StmtForm inLoop (word :: (test ++ (block ++ rest))) (.if condition body tail)
  | while {inLoop : Bool} {word opening closing : Token} {test block : List Token}
    {condition : Expr} {body : List Stmt} {close : Span} (begins : word.kind = .keyword .while)
    (opens : opening.kind = .openParen) (tests : ExprForm 0 test condition)
    (closes : closing.kind = .closeParen) (blocks : BlockForm true block body close) :
    StmtForm inLoop (word :: opening :: (test ++ closing :: block)) (.while condition body)
  | for {inLoop : Bool} {word opening stop stop' closing : Token}
    {optional first test next block : List Token} {init update : Binding} {condition : Expr}
    {body : List Stmt} {close : Span} (begins : word.kind = .keyword .for)
    (opens : opening.kind = .openParen) (mayDeclare : OptionalLet optional)
    (starts : BindingForm first init) (ends : stop.kind = .semicolon)
    (tests : ExprForm 0 test condition) (ends' : stop'.kind = .semicolon)
    (updates : BindingForm next update) (closes : closing.kind = .closeParen)
    (blocks : BlockForm true block body close) :
    StmtForm inLoop (word :: opening :: (optional ++ (first ++ stop :: (test ++ stop' ::
      (next ++ closing :: block))))) (.for init condition update body)
  | break {word stop : Token} (begins : word.kind = .keyword .break)
    (ends : stop.kind = .semicolon) : StmtForm true [word, stop] (.break word.span)
  | continue {word stop : Token} (begins : word.kind = .keyword .continue)
    (ends : stop.kind = .semicolon) : StmtForm true [word, stop] (.continue word.span)

/-- The tokens of what may follow the first body of an `if`. -/
inductive TailForm : Bool → List Token → Tail → Prop where
  | none {inLoop : Bool} : TailForm inLoop [] .none
  | elseIf {inLoop : Bool} {word word' : Token} {test block rest : List Token} {condition : Expr}
    {body : List Stmt} {tail : Tail} {close : Span} (begins : word.kind = .keyword .else)
    (continues : word'.kind = .keyword .if) (tests : ExprForm 0 test condition)
    (blocks : BlockForm inLoop block body close) (follows : TailForm inLoop rest tail) :
    TailForm inLoop (word :: word' :: (test ++ (block ++ rest))) (.elseIf condition body tail)
  | else {inLoop : Bool} {word : Token} {block : List Token} {body : List Stmt} {close : Span}
    (begins : word.kind = .keyword .else) (blocks : BlockForm inLoop block body close) :
    TailForm inLoop (word :: block) (.else body)

/-- The tokens of statements in braces, with the span of the closing brace. -/
inductive BlockForm : Bool → List Token → List Stmt → Span → Prop where
  | mk {inLoop : Bool} {opening closing : Token} {inside : List Token} {body : List Stmt}
    (opens : opening.kind = .openBrace) (form : StmtsForm inLoop inside body)
    (closes : closing.kind = .closeBrace) :
    BlockForm inLoop (opening :: (inside ++ [closing])) body closing.span

inductive StmtsForm : Bool → List Token → List Stmt → Prop where
  | nil {inLoop : Bool} : StmtsForm inLoop [] []
  | cons {inLoop : Bool} {first rest : List Token} {stmt : Stmt} {stmts : List Stmt}
    (form : StmtForm inLoop first stmt) (others : StmtsForm inLoop rest stmts) :
    StmtsForm inLoop (first ++ rest) (stmt :: stmts)

end

/-- The tokens of the names of parameters, with commas as between arguments. -/
inductive ParamsForm : List Token → List Ident → Prop where
  | nil : ParamsForm [] []
  | last {token : Token} (named : token.kind = .identifier) : ParamsForm [token] [nameOf token]
  | cons {token comma : Token} {rest : List Token} {params : List Ident}
    (named : token.kind = .identifier) (separates : comma.kind = .comma)
    (others : ParamsForm rest params) :
    ParamsForm (token :: comma :: rest) (nameOf token :: params)

inductive FunctionForm : List Token → Function → Prop where
  | mk {word token opening closing : Token} {inside block : List Token} {params : List Ident}
    {body : List Stmt} {close : Span} (begins : word.kind = .keyword .fn)
    (named : token.kind = .identifier) (opens : opening.kind = .openParen)
    (form : ParamsForm inside params) (closes : closing.kind = .closeParen)
    (blocks : BlockForm false block body close) :
    FunctionForm (word :: token :: opening :: (inside ++ closing :: block))
      ⟨nameOf token, params, body, word.span.merge close⟩

/-- A definition at the level of programs. -/
inductive Item where
  | function (function : Function)
  | global (binding : Binding)

namespace Item

def function? : Item → Option Function
  | .function definition => some definition
  | .global _ => none

def global? : Item → Option Binding
  | .function _ => none
  | .global binding => some binding

end Item

/-- The tokens of definitions in any order. -/
inductive ItemsForm : List Token → List Item → Prop where
  | nil : ItemsForm [] []
  | function {first rest : List Token} {function : Function} {items : List Item}
    (form : FunctionForm first function) (others : ItemsForm rest items) :
    ItemsForm (first ++ rest) (.function function :: items)
  | global {first rest : List Token} {binding : Binding} {items : List Item}
    (form : LetForm first binding) (others : ItemsForm rest items) :
    ItemsForm (first ++ rest) (.global binding :: items)

/-- Whether a function is the entry function of its program. -/
def isEntry (function : Function) : Bool := function.name.name = entryName

/-- Whether one program is another with some definitions behind its own: functions and globals in
order, and apart from them the entry function, of which there is at most one. It has no parameters. -/
structure Extends (program : Program) (items : List Item) (extended : Program) : Prop where
  functions : extended.functions =
    program.functions ++ (items.filterMap Item.function?).filter fun function => !isEntry function
  globals : extended.globals = program.globals ++ items.filterMap Item.global?
  main : extended.main.toList =
    program.main.toList ++ (items.filterMap Item.function?).filter isEntry
  bare : ∀ function ∈ items.filterMap Item.function?, isEntry function = true → function.params = []

/-- The tokens of a program. -/
def ProgramForm (tokens : List Token) (program : Program) : Prop :=
  ∃ items, ItemsForm tokens items ∧ Extends .empty items program

end OliCompiler.Grammar
