import OliCompiler.Lower
import OliCompiler.Proofs.Lowering.Code

/-!
What code a construct has, rule by rule. The numbers in front of a construct and behind its code are
the first free register, or the first free register and the first free block.
-/

namespace OliCompiler.Lower

open Ir

/-- The address of a variable in a function with these stack slots. -/
def place (slots : List Reg) : Scoped.Var → Operand
  | .local slot => .reg (slots[slot]?.getD default)
  | .global name => .global name

mutual

/-- The code of an expression, and its result. -/
inductive ExprCode (slots : List Reg) :
    Nat → Scoped.Expr → List Instr → Result → Nat → Prop where
  | int {n : Nat} {value : Int32} : ExprCode slots n (.int value) [] (.word (.int value)) n
  | var {n : Nat} {var : Scoped.Var} :
    ExprCode slots n (.var var) [⟨some ⟨n⟩, .load (place slots var)⟩] (.word (.reg ⟨n⟩)) (n + 1)
  | print {n n' : Nat} {value : Scoped.Expr} {code : List Instr} {operand : Operand}
    (argument : WordCode slots n value code operand n') :
    ExprCode slots n (.print value)
      (code ++ [⟨some ⟨n'⟩, .call printerName [.global formatName, operand]⟩])
      (.word (.reg ⟨n'⟩)) (n' + 1)
  | call {n n' : Nat} {callee : String} {args : List Scoped.Expr} {code : List Instr}
    {operands : List Operand} (arguments : WordsCode slots n args code operands n') :
    ExprCode slots n (.call callee args) (code ++ [⟨some ⟨n'⟩, .call callee operands⟩])
      (.word (.reg ⟨n'⟩)) (n' + 1)
  | arith {n m n' : Nat} {op : Arith} {left right : Scoped.Expr} {code code' : List Instr}
    {a b : Operand} (first : WordCode slots n left code a m)
    (second : WordCode slots m right code' b n') :
    ExprCode slots n (.binary (.arith op) left right)
      (code ++ code' ++ [⟨some ⟨n'⟩, .arith (arithOf op) a b⟩]) (.word (.reg ⟨n'⟩)) (n' + 1)
  | compare {n m n' : Nat} {op : Comparison} {left right : Scoped.Expr} {code code' : List Instr}
    {a b : Operand} (first : WordCode slots n left code a m)
    (second : WordCode slots m right code' b n') :
    ExprCode slots n (.binary (.compare op) left right)
      (code ++ code' ++ [⟨some ⟨n'⟩, .compare (conditionOf op) a b⟩]) (.truth (.reg ⟨n'⟩)) (n' + 1)

/-- The code of an expression whose value is needed as an integer. -/
inductive WordCode (slots : List Reg) :
    Nat → Scoped.Expr → List Instr → Operand → Nat → Prop where
  | word {n n' : Nat} {value : Scoped.Expr} {code : List Instr} {operand : Operand}
    (same : ExprCode slots n value code (.word operand) n') :
    WordCode slots n value code operand n'
  | truth {n n' : Nat} {value : Scoped.Expr} {code : List Instr} {operand : Operand}
    (narrow : ExprCode slots n value code (.truth operand) n') :
    WordCode slots n value (code ++ [⟨some ⟨n'⟩, .widen operand .i32⟩]) (.reg ⟨n'⟩) (n' + 1)

inductive WordsCode (slots : List Reg) :
    Nat → List Scoped.Expr → List Instr → List Operand → Nat → Prop where
  | nil {n : Nat} : WordsCode slots n [] [] [] n
  | cons {n m n' : Nat} {value : Scoped.Expr} {values : List Scoped.Expr}
    {code code' : List Instr} {operand : Operand} {operands : List Operand}
    (first : WordCode slots n value code operand m)
    (rest : WordsCode slots m values code' operands n') :
    WordsCode slots n (value :: values) (code ++ code') (operand :: operands) n'

end

/-- The code of an expression whose value is needed as a truth value. -/
inductive TestCode (slots : List Reg) :
    Nat → Scoped.Expr → List Instr → Operand → Nat → Prop where
  | truth {n n' : Nat} {value : Scoped.Expr} {code : List Instr} {operand : Operand}
    (same : ExprCode slots n value code (.truth operand) n') :
    TestCode slots n value code operand n'
  | word {n n' : Nat} {value : Scoped.Expr} {code : List Instr} {operand : Operand}
    (wide : ExprCode slots n value code (.word operand) n') :
    TestCode slots n value (code ++ [⟨some ⟨n'⟩, .compare .ne operand (.int 0)⟩]) (.reg ⟨n'⟩)
      (n' + 1)

inductive DeclareCode (slots : List Reg) : Nat → Nat → Scoped.Expr → Code → Nat → Prop where
  | mk {n m slot : Nat} {value : Scoped.Expr} {code : List Instr} {operand : Operand}
    (word : WordCode slots n value code operand m) (numbered : slots[slot]? = some ⟨m⟩) :
    DeclareCode slots n slot value
      (Code.ofInstrs code ++ [.slot ⟨m⟩, .instr ⟨none, .store (.reg ⟨m⟩) operand⟩]) (m + 1)

inductive AssignCode (slots : List Reg) : Nat → Scoped.Var → Scoped.Expr → Code → Nat → Prop where
  | mk {n n' : Nat} {var : Scoped.Var} {value : Scoped.Expr} {code : List Instr} {operand : Operand}
    (word : WordCode slots n value code operand n') :
    AssignCode slots n var value
      (Code.ofInstrs code ++ [.instr ⟨none, .store (place slots var) operand⟩]) n'

/-- The end of a body that goes on at a block if control falls out of it. -/
def joined (falls : Bool) (target : BlockId) : Code :=
  if falls then [.exit (.jump target)] else []

mutual

/-- The code of a statement, and whether control falls out of it. -/
inductive StmtCode (slots : List Reg) :
    Option Targets → Nat → Nat → Scoped.Stmt → Code → Bool → Nat → Nat → Prop where
  | declare {targets : Option Targets} {n n' k slot : Nat} {value : Scoped.Expr} {code : Code}
    (declared : DeclareCode slots n slot value code n') :
    StmtCode slots targets n k (.declare slot value) code true n' k
  | assign {targets : Option Targets} {n n' k : Nat} {var : Scoped.Var} {value : Scoped.Expr}
    {code : Code} (assigned : AssignCode slots n var value code n') :
    StmtCode slots targets n k (.assign var value) code true n' k
  | return {targets : Option Targets} {n n' k : Nat} {value : Scoped.Expr} {code : List Instr}
    {operand : Operand} (word : WordCode slots n value code operand n') :
    StmtCode slots targets n k (.return value)
      (Code.ofInstrs code ++ [.exit (.ret operand)]) false n' k
  | expr {targets : Option Targets} {n n' k : Nat} {value : Scoped.Expr} {code : List Instr}
    {result : Result} (computed : ExprCode slots n value code result n') :
    StmtCode slots targets n k (.expr value) (Code.ofInstrs code) true n' k
  | if {targets : Option Targets} {n n' k k' : Nat} {condition : Scoped.Expr}
    {body : List Scoped.Stmt} {tail : Scoped.Tail} {code : Code} {reached : Bool}
    (both : ArmsCode slots targets ⟨k⟩ n (k + 1) condition body tail code reached n' k') :
    StmtCode slots targets n k (.if condition body tail)
      (code ++ .label ⟨k⟩ "if.end" :: if reached then [] else [.exit .unreachable]) reached n' k'
  | while {targets : Option Targets} {n m n' k k' : Nat} {condition : Scoped.Expr}
    {body : List Scoped.Stmt} {code : List Instr} {operand : Operand} {inner : Code} {falls : Bool}
    (test : TestCode slots n condition code operand m)
    (repeated : StmtsCode slots (some ⟨⟨k + 2⟩, ⟨k⟩⟩) m (k + 3) true body inner falls n' k') :
    StmtCode slots targets n k (.while condition body)
      (.exit (.jump ⟨k⟩) :: .label ⟨k⟩ "while.cond" :: (Code.ofInstrs code ++
        .exit (.branch operand ⟨k + 1⟩ ⟨k + 2⟩) :: .label ⟨k + 1⟩ "while.body" :: (inner ++
          (joined falls ⟨k⟩ ++ [.label ⟨k + 2⟩ "while.end"])))) true n' k'
  | for {targets : Option Targets} {n n₁ n₂ n₃ n' k k' slot : Nat}
    {init condition update : Scoped.Expr} {var : Scoped.Var} {body : List Scoped.Stmt}
    {first next : Code} {code : List Instr} {operand : Operand} {inner : Code} {falls : Bool}
    (declared : DeclareCode slots n slot init first n₁)
    (test : TestCode slots n₁ condition code operand n₂)
    (repeated : StmtsCode slots (some ⟨⟨k + 3⟩, ⟨k + 2⟩⟩) n₂ (k + 4) true body inner falls n₃ k')
    (updated : AssignCode slots n₃ var update next n') :
    StmtCode slots targets n k (.for slot init condition var update body)
      (first ++ .exit (.jump ⟨k⟩) :: .label ⟨k⟩ "for.cond" :: (Code.ofInstrs code ++
        .exit (.branch operand ⟨k + 1⟩ ⟨k + 3⟩) :: .label ⟨k + 1⟩ "for.body" :: (inner ++
          (joined falls ⟨k + 2⟩ ++ .label ⟨k + 2⟩ "for.iter" :: (next ++
            [.exit (.jump ⟨k⟩), .label ⟨k + 3⟩ "for.end"]))))) true n' k'
  | break {targets : Targets} {n k : Nat} :
    StmtCode slots (some targets) n k .break [.exit (.jump targets.exit)] false n k
  | continue {targets : Targets} {n k : Nat} :
    StmtCode slots (some targets) n k .continue [.exit (.jump targets.next)] false n k

/-- The code of a condition and both arms, and whether control reaches the block behind them. -/
inductive ArmsCode (slots : List Reg) :
    Option Targets → BlockId → Nat → Nat → Scoped.Expr → List Scoped.Stmt → Scoped.Tail → Code →
      Bool → Nat → Nat → Prop where
  | mk {targets : Option Targets} {merge : BlockId} {n n₁ n₂ n' k k₁ k' : Nat}
    {condition : Scoped.Expr} {body : List Scoped.Stmt} {tail : Scoped.Tail} {code : List Instr}
    {operand : Operand} {inner others : Code} {falls reached : Bool}
    (test : TestCode slots n condition code operand n₁)
    (first : StmtsCode slots targets n₁ (k + 2) true body inner falls n₂ k₁)
    (second : TailCode slots targets merge n₂ k₁ tail others reached n' k') :
    ArmsCode slots targets merge n k condition body tail
      (Code.ofInstrs code ++ .exit (.branch operand ⟨k⟩ ⟨k + 1⟩) :: .label ⟨k⟩ "if.then" ::
        (inner ++ (joined falls merge ++ .label ⟨k + 1⟩ "if.else" :: others)))
      (falls || reached) n' k'

/-- The code of what follows the first body of an `if`, and whether control reaches `merge`. -/
inductive TailCode (slots : List Reg) :
    Option Targets → BlockId → Nat → Nat → Scoped.Tail → Code → Bool → Nat → Nat → Prop where
  | none {targets : Option Targets} {merge : BlockId} {n k : Nat} :
    TailCode slots targets merge n k .none [.exit (.jump merge)] true n k
  | elseIf {targets : Option Targets} {merge : BlockId} {n n' k k' : Nat} {condition : Scoped.Expr}
    {body : List Scoped.Stmt} {tail : Scoped.Tail} {code : Code} {reached : Bool}
    (both : ArmsCode slots targets merge n k condition body tail code reached n' k') :
    TailCode slots targets merge n k (.elseIf condition body tail) code reached n' k'
  | else {targets : Option Targets} {merge : BlockId} {n n' k k' : Nat} {body : List Scoped.Stmt}
    {code : Code} {falls : Bool}
    (inner : StmtsCode slots targets n k true body code falls n' k') :
    TailCode slots targets merge n k (.else body) (code ++ joined falls merge) falls n' k'

/-- The code of statements behind code that control falls out of or not. -/
inductive StmtsCode (slots : List Reg) :
    Option Targets → Nat → Nat → Bool → List Scoped.Stmt → Code → Bool → Nat → Nat → Prop where
  | nil {targets : Option Targets} {n k : Nat} {falls : Bool} :
    StmtsCode slots targets n k falls [] [] falls n k
  | cons {targets : Option Targets} {n m n' k k₁ k' : Nat} {stmt : Scoped.Stmt}
    {stmts : List Scoped.Stmt} {code code' : Code} {falls falls' : Bool}
    (first : StmtCode slots targets n k stmt code falls m k₁)
    (rest : StmtsCode slots targets m k₁ falls stmts code' falls' n' k') :
    StmtsCode slots targets n k true (stmt :: stmts) (code ++ code') falls' n' k'
  | dead {targets : Option Targets} {n m n' k k₁ k' : Nat} {stmt : Scoped.Stmt}
    {stmts : List Scoped.Stmt} {code code' : Code} {falls falls' : Bool}
    (first : StmtCode slots targets n (k + 1) stmt code falls m k₁)
    (rest : StmtsCode slots targets m k₁ falls stmts code' falls' n' k') :
    StmtsCode slots targets n k false (stmt :: stmts) (.label ⟨k⟩ "dead" :: (code ++ code')) falls'
      n' k'

end

/-- The code that copies parameters into slots of their own. -/
def paramsCode (n : Nat) : List Reg → Code
  | [] => []
  | reg :: regs =>
    .slot ⟨n⟩ :: .instr ⟨none, .store (.reg ⟨n⟩) (.reg reg)⟩ :: paramsCode (n + 1) regs

/-- The code that computes the first values of globals. -/
inductive InitialsCode (slots : List Reg) :
    Nat → List (String × Scoped.Expr) → Code → Nat → Prop where
  | nil {n : Nat} : InitialsCode slots n [] [] n
  | cons {n m n' : Nat} {name : String} {value : Scoped.Expr} {globals : List (String × Scoped.Expr)}
    {code : List Instr} {operand : Operand} {code' : Code}
    (word : WordCode slots n value code operand m) (rest : InitialsCode slots m globals code' n') :
    InitialsCode slots n ((name, value) :: globals)
      (Code.ofInstrs code ++ .instr ⟨none, .store (.global name) operand⟩ :: code') n'

/-! ## Code that neither starts nor ends a block -/

section

variable {slots : List Reg} {n n' slot : Nat} {code : Code}

theorem DeclareCode.inner {value : Scoped.Expr} (declared : DeclareCode slots n slot value code n') :
    ∀ piece ∈ code, Code.Inner piece := by
  cases declared with
  | mk =>
    rw [List.forall_mem_append]
    exact ⟨Code.inner_ofInstrs, List.forall_mem_cons.mpr ⟨trivial, List.forall_mem_singleton.mpr trivial⟩⟩

theorem AssignCode.inner {var : Scoped.Var} {value : Scoped.Expr}
    (assigned : AssignCode slots n var value code n') : ∀ piece ∈ code, Code.Inner piece := by
  cases assigned with
  | mk =>
    rw [List.forall_mem_append]
    exact ⟨Code.inner_ofInstrs, List.forall_mem_singleton.mpr trivial⟩

theorem inner_paramsCode {regs : List Reg} : ∀ piece ∈ paramsCode n regs, Code.Inner piece := by
  induction regs generalizing n with
  | nil => exact List.forall_mem_nil _
  | cons reg regs ih =>
    exact List.forall_mem_cons.mpr ⟨trivial, List.forall_mem_cons.mpr ⟨trivial, ih⟩⟩

theorem InitialsCode.inner {globals : List (String × Scoped.Expr)}
    (initials : InitialsCode slots n globals code n') : ∀ piece ∈ code, Code.Inner piece := by
  induction initials with
  | nil => exact List.forall_mem_nil _
  | cons _ _ ih =>
    rw [List.forall_mem_append]
    exact ⟨Code.inner_ofInstrs, List.forall_mem_cons.mpr ⟨trivial, ih⟩⟩

end

/-- The end of a function that control may fall off. -/
def closed (falls : Bool) : Code := if falls then [.exit (.ret (.int 0))] else []

/-- The registers of the parameters of a function. -/
def paramRegs (arity : Nat) : List Reg := (List.range arity).map Reg.mk

/-- The code of a function: its parameters, its body, and the end that control may fall off. -/
inductive FunctionCode (function : Scoped.Function) : Code → Prop where
  | mk {code : Code} {falls : Bool} {slots : List Reg} {n k : Nat}
    (all : slots = Code.slots (paramsCode function.arity (paramRegs function.arity) ++ code))
    (body : StmtsCode slots none (function.arity + function.arity) 1 true function.body code falls
      n k) :
    FunctionCode function (.label ⟨0⟩ "entry" ::
      (paramsCode function.arity (paramRegs function.arity) ++ (code ++ closed falls)))

/-- The code of `main`, which starts with the first values of the globals. -/
inductive MainCode (program : Scoped.Program) : Code → Prop where
  | mk {first code : Code} {falls : Bool} {slots : List Reg} {m n k : Nat}
    (all : slots = Code.slots code)
    (globals : InitialsCode slots 0 program.globals first m)
    (body : StmtsCode slots none m 1 true program.main code falls n k) :
    MainCode program (.label ⟨0⟩ "entry" :: (first ++ (code ++ closed falls)))

end OliCompiler.Lower
