import OliCompiler.Proofs.Grammar.Forms
import OliCompiler.Proofs.Printing.Words

/-!
Programs as source text. An operand stands in parentheses only where its operator binds more loosely
than its place asks: on the left side of an operator its own level, on the right side the next.
-/

namespace OliCompiler

namespace Printing

def parens (words : List Word) : List Word :=
  .fixed .openParen :: (words ++ [.fixed .closeParen])

def braces (words : List Word) : List Word :=
  .fixed .openBrace :: (words ++ [.fixed .closeBrace])

end Printing

open Grammar (levelOf)
open Printing

mutual

/-- The words of an expression that stands where the level `level` is asked for. -/
def Expr.words (level : Nat) : Expr → List Word
  | .int value _ => [.number value.toInt.toNat]
  | .var name => [.name name.name]
  | .call callee args _ => .name callee.name :: parens (Expr.wordsOfArgs args)
  | .binary op left right =>
    let inside :=
      left.words (levelOf op) ++ .fixed (.operator op) :: right.words (levelOf op + 1)
    if levelOf op < level then parens inside else inside

def Expr.wordsOfArgs : List Expr → List Word
  | [] => []
  | [arg] => arg.words 0
  | arg :: next :: args => arg.words 0 ++ .fixed .comma :: Expr.wordsOfArgs (next :: args)

end

def Binding.words (binding : Binding) : List Word :=
  .name binding.name.name :: .fixed .assign :: binding.value.words 0

def Binding.wordsOfLet (binding : Binding) : List Word :=
  .fixed (.keyword .let) :: (binding.words ++ [.fixed .semicolon])

mutual

def Stmt.words : Stmt → List Word
  | .declare binding => binding.wordsOfLet
  | .assign binding => binding.words ++ [.fixed .semicolon]
  | .return value => .fixed (.keyword .return) :: (value.words 0 ++ [.fixed .semicolon])
  | .expr value => value.words 0 ++ [.fixed .semicolon]
  | .if condition body tail =>
    .fixed (.keyword .if) :: (condition.words 0 ++ (braces (Stmt.wordsOfAll body) ++ tail.words))
  | .while condition body =>
    .fixed (.keyword .while) :: .fixed .openParen ::
      (condition.words 0 ++ .fixed .closeParen :: braces (Stmt.wordsOfAll body))
  | .for init condition update body =>
    .fixed (.keyword .for) :: .fixed .openParen :: .fixed (.keyword .let) ::
      (init.words ++ .fixed .semicolon :: (condition.words 0 ++ .fixed .semicolon ::
        (update.words ++ .fixed .closeParen :: braces (Stmt.wordsOfAll body))))
  | .break _ => [.fixed (.keyword .break), .fixed .semicolon]
  | .continue _ => [.fixed (.keyword .continue), .fixed .semicolon]

def Tail.words : Tail → List Word
  | .none => []
  | .elseIf condition body tail =>
    .fixed (.keyword .else) :: .fixed (.keyword .if) ::
      (condition.words 0 ++ (braces (Stmt.wordsOfAll body) ++ tail.words))
  | .else body => .fixed (.keyword .else) :: braces (Stmt.wordsOfAll body)

def Stmt.wordsOfAll : List Stmt → List Word
  | [] => []
  | stmt :: stmts => stmt.words ++ Stmt.wordsOfAll stmts

end

def Ident.wordsOfParams : List Ident → List Word
  | [] => []
  | [param] => [.name param.name]
  | param :: next :: params =>
    .name param.name :: .fixed .comma :: Ident.wordsOfParams (next :: params)

def Function.words (function : Function) : List Word :=
  .fixed (.keyword .fn) :: .name function.name.name ::
    (parens (Ident.wordsOfParams function.params) ++ braces (Stmt.wordsOfAll function.body))

namespace Program

/-- The words of a program: its globals, its functions and last the entry function. -/
def words (program : Program) : List Word :=
  program.globals.flatMap Binding.wordsOfLet ++
    (program.functions.flatMap Function.words ++ program.main.toList.flatMap Function.words)

/-- The source text of a program. -/
def source (program : Program) : String := String.ofList (layout program.words)

end Program

mutual

/-- Whether an expression can be written: integers have no sign. -/
def Expr.Printable : Expr → Prop
  | .int value _ => 0 ≤ value
  | .var name => IsIdentifier name.name
  | .call callee args _ => IsIdentifier callee.name ∧ Expr.AllPrintable args
  | .binary _ left right => left.Printable ∧ right.Printable

def Expr.AllPrintable : List Expr → Prop
  | [] => True
  | expr :: exprs => expr.Printable ∧ Expr.AllPrintable exprs

end

def Binding.Printable (binding : Binding) : Prop :=
  IsIdentifier binding.name.name ∧ binding.value.Printable

mutual

/-- Whether a statement can be written: `break` and `continue` stand in loops. -/
def Stmt.Printable (inLoop : Bool) : Stmt → Prop
  | .declare binding => binding.Printable
  | .assign binding => binding.Printable
  | .return value => value.Printable
  | .expr value => value.Printable
  | .if condition body tail =>
    condition.Printable ∧ Stmt.AllPrintable inLoop body ∧ tail.Printable inLoop
  | .while condition body => condition.Printable ∧ Stmt.AllPrintable true body
  | .for init condition update body =>
    init.Printable ∧ condition.Printable ∧ update.Printable ∧ Stmt.AllPrintable true body
  | .break _ => inLoop = true
  | .continue _ => inLoop = true

def Tail.Printable (inLoop : Bool) : Tail → Prop
  | .none => True
  | .elseIf condition body tail =>
    condition.Printable ∧ Stmt.AllPrintable inLoop body ∧ tail.Printable inLoop
  | .else body => Stmt.AllPrintable inLoop body

def Stmt.AllPrintable (inLoop : Bool) : List Stmt → Prop
  | [] => True
  | stmt :: stmts => stmt.Printable inLoop ∧ Stmt.AllPrintable inLoop stmts

end

structure Function.Printable (function : Function) : Prop where
  name : IsIdentifier function.name.name
  params : ∀ param ∈ function.params, IsIdentifier param.name
  body : Stmt.AllPrintable false function.body

/-- Whether a program can be written: its entry function has the name of one and takes nothing, and no
other function has that name. -/
structure Program.Printable (program : Program) : Prop where
  globals : ∀ binding ∈ program.globals, binding.Printable
  functions : ∀ function ∈ program.functions, function.Printable ∧ function.name.name ≠ entryName
  main : ∀ function ∈ program.main,
    function.Printable ∧ function.name.name = entryName ∧ function.params = []

/-! Every word that is printed is one of the language. -/

namespace Printing

/-- Whether all words are of the language. -/
def AllLegal (words : List Word) : Prop := ∀ word ∈ words, word.Legal

variable {word : Word} {words others : List Word}

theorem AllLegal.nil : AllLegal [] := fun _ member => by cases member

theorem AllLegal.cons (legal : word.Legal) (behind : AllLegal words) : AllLegal (word :: words) :=
  List.forall_mem_cons.mpr ⟨legal, behind⟩

theorem AllLegal.append (legal : AllLegal words) (behind : AllLegal others) :
    AllLegal (words ++ others) :=
  List.forall_mem_append.mpr ⟨legal, behind⟩

theorem AllLegal.semicolon (legal : AllLegal words) : AllLegal (words ++ [.fixed .semicolon]) :=
  legal.append (.cons (.delimiter (by decide)) .nil)

theorem AllLegal.parens (legal : AllLegal words) : AllLegal (parens words) :=
  .cons (.delimiter (by decide)) (legal.append (.cons (.delimiter (by decide)) .nil))

theorem AllLegal.braces (legal : AllLegal words) : AllLegal (braces words) :=
  .cons (.delimiter (by decide)) (legal.append (.cons (.delimiter (by decide)) .nil))

end Printing

mutual

theorem Expr.words_legal : ∀ {expr : Expr} {level : Nat}, expr.Printable → AllLegal (expr.words level)
  | .int value _, _, _ => by
    have bounded : value.toInt < 2147483648 := value.toInt_lt
    exact .cons (.number (by rw [Decimal.greatest]; omega)) .nil
  | .var _, _, printable => .cons (.name printable) .nil
  | .call _ _ _, _, printable =>
    .cons (.name printable.1) (Expr.wordsOfArgs_legal printable.2).parens
  | .binary op left right, level, printable => by
    rw [Expr.words]
    have inside : AllLegal
        (left.words (levelOf op) ++ .fixed (.operator op) :: right.words (levelOf op + 1)) :=
      (Expr.words_legal printable.1).append (.cons (.operator op) (Expr.words_legal printable.2))
    split
    · exact inside.parens
    · exact inside

theorem Expr.wordsOfArgs_legal : ∀ {args : List Expr}, Expr.AllPrintable args →
    AllLegal (Expr.wordsOfArgs args)
  | [], _ => .nil
  | [_], printable => Expr.words_legal printable.1
  | _ :: _ :: _, printable =>
    (Expr.words_legal printable.1).append
      (.cons (.delimiter (by decide)) (Expr.wordsOfArgs_legal printable.2))

end

theorem Binding.words_legal {binding : Binding} (printable : binding.Printable) :
    AllLegal binding.words :=
  .cons (.name printable.1) (.cons .assign (Expr.words_legal printable.2))

theorem Binding.wordsOfLet_legal {binding : Binding} (printable : binding.Printable) :
    AllLegal binding.wordsOfLet :=
  .cons (.keyword .let) (Binding.words_legal printable).semicolon

mutual

theorem Stmt.words_legal : ∀ {stmt : Stmt} {inLoop : Bool}, stmt.Printable inLoop →
    AllLegal stmt.words
  | .declare _, _, printable => Binding.wordsOfLet_legal printable
  | .assign _, _, printable => (Binding.words_legal printable).semicolon
  | .return _, _, printable => .cons (.keyword .return) (Expr.words_legal printable).semicolon
  | .expr _, _, printable => (Expr.words_legal printable).semicolon
  | .if _ _ _, _, printable =>
    .cons (.keyword .if) ((Expr.words_legal printable.1).append
      ((Stmt.wordsOfAll_legal printable.2.1).braces.append (Tail.words_legal printable.2.2)))
  | .while _ _, _, printable =>
    .cons (.keyword .while) (.cons (.delimiter (by decide)) ((Expr.words_legal printable.1).append
      (.cons (.delimiter (by decide)) (Stmt.wordsOfAll_legal printable.2).braces)))
  | .for _ _ _ _, _, ⟨init, condition, update, body⟩ =>
    .cons (.keyword .for) (.cons (.delimiter (by decide)) (.cons (.keyword .let)
      ((Binding.words_legal init).append (.cons (.delimiter (by decide))
        ((Expr.words_legal condition).append (.cons (.delimiter (by decide))
          ((Binding.words_legal update).append (.cons (.delimiter (by decide))
            (Stmt.wordsOfAll_legal body).braces))))))))
  | .break _, _, _ => .cons (.keyword .break) (.cons (.delimiter (by decide)) .nil)
  | .continue _, _, _ => .cons (.keyword .continue) (.cons (.delimiter (by decide)) .nil)

theorem Tail.words_legal : ∀ {tail : Tail} {inLoop : Bool}, tail.Printable inLoop →
    AllLegal tail.words
  | .none, _, _ => .nil
  | .elseIf _ _ _, _, printable =>
    .cons (.keyword .else) (.cons (.keyword .if) ((Expr.words_legal printable.1).append
      ((Stmt.wordsOfAll_legal printable.2.1).braces.append (Tail.words_legal printable.2.2))))
  | .else _, _, printable => .cons (.keyword .else) (Stmt.wordsOfAll_legal printable).braces

theorem Stmt.wordsOfAll_legal : ∀ {stmts : List Stmt} {inLoop : Bool},
    Stmt.AllPrintable inLoop stmts → AllLegal (Stmt.wordsOfAll stmts)
  | [], _, _ => .nil
  | _ :: _, _, printable =>
    (Stmt.words_legal printable.1).append (Stmt.wordsOfAll_legal printable.2)

end

theorem Ident.wordsOfParams_legal : ∀ {params : List Ident},
    (∀ param ∈ params, IsIdentifier param.name) → AllLegal (Ident.wordsOfParams params)
  | [], _ => .nil
  | [_], printable => .cons (.name (printable _ List.mem_cons_self)) .nil
  | _ :: _ :: _, printable =>
    .cons (.name (printable _ List.mem_cons_self)) (.cons (.delimiter (by decide))
      (Ident.wordsOfParams_legal fun param member => printable param (List.mem_cons_of_mem _ member)))

theorem Function.words_legal {function : Function} (printable : function.Printable) :
    AllLegal function.words :=
  .cons (.keyword .fn) (.cons (.name printable.name)
    ((Ident.wordsOfParams_legal printable.params).parens.append
      (Stmt.wordsOfAll_legal printable.body).braces))

theorem Program.words_legal {program : Program} (printable : program.Printable) :
    AllLegal program.words := by
  intro word member
  rcases List.mem_append.mp member with member | member
  · obtain ⟨binding, listed, inside⟩ := List.mem_flatMap.mp member
    exact Binding.wordsOfLet_legal (printable.globals binding listed) word inside
  · rcases List.mem_append.mp member with member | member
    · obtain ⟨function, listed, inside⟩ := List.mem_flatMap.mp member
      exact Function.words_legal (printable.functions function listed).1 word inside
    · obtain ⟨function, listed, inside⟩ := List.mem_flatMap.mp member
      exact Function.words_legal (printable.main function (Option.mem_toList.mp listed)).1 word inside

def Ident.bare (name : Ident) : Ident := ⟨name.name, default⟩

mutual

/-- The expression with nothing known of where it stands. -/
def Expr.bare : Expr → Expr
  | .int value _ => .int value default
  | .var name => .var name.bare
  | .call callee args _ => .call callee.bare (Expr.bareAll args) default
  | .binary op left right => .binary op left.bare right.bare

def Expr.bareAll : List Expr → List Expr
  | [] => []
  | expr :: exprs => expr.bare :: Expr.bareAll exprs

end

def Binding.bare (binding : Binding) : Binding := ⟨binding.name.bare, binding.value.bare⟩

mutual

def Stmt.bare : Stmt → Stmt
  | .declare binding => .declare binding.bare
  | .assign binding => .assign binding.bare
  | .return value => .return value.bare
  | .expr value => .expr value.bare
  | .if condition body tail => .if condition.bare (Stmt.bareAll body) tail.bare
  | .while condition body => .while condition.bare (Stmt.bareAll body)
  | .for init condition update body =>
    .for init.bare condition.bare update.bare (Stmt.bareAll body)
  | .break _ => .break default
  | .continue _ => .continue default

def Tail.bare : Tail → Tail
  | .none => .none
  | .elseIf condition body tail => .elseIf condition.bare (Stmt.bareAll body) tail.bare
  | .else body => .else (Stmt.bareAll body)

def Stmt.bareAll : List Stmt → List Stmt
  | [] => []
  | stmt :: stmts => stmt.bare :: Stmt.bareAll stmts

end

def Function.bare (function : Function) : Function :=
  ⟨function.name.bare, function.params.map Ident.bare, Stmt.bareAll function.body, default⟩

def Program.bare (program : Program) : Program :=
  ⟨program.functions.map Function.bare, program.globals.map Binding.bare,
    program.main.map Function.bare⟩

end OliCompiler
