import OliCompiler.Ir
import OliCompiler.Machine.Value
import OliCompiler.Source.Span

/-!
The faults that end a run: divisions without a result, the limits of the run, and code that has no
meaning.
-/

namespace OliCompiler.Machine

/-- Why code has no meaning. -/
inductive Defect where
  | argumentCount (expected found : Nat)
  | noEntryBlock
  | noTerminator (block : Ir.BlockId)
  | missingBlock (block : Ir.BlockId)
  | undefinedRegister (reg : Ir.Reg)
  | notInt (value : Value)
  | notBool (value : Value)
  | notPtr (value : Value)
  | badLoad (address : Address)
  | badStore (address : Address)
  /-- The entry function gave something other than an integer. -/
  | badResult (value : Value)
deriving DecidableEq, Repr

def Defect.wording : Defect → String
  | argumentCount expected found =>
    "expected " ++ toString expected ++ " arguments, got " ++ toString found
  | noEntryBlock => "no entry block"
  | noTerminator block => block.text ++ " has no terminator"
  | missingBlock block => "branch to missing " ++ block.text
  | undefinedRegister reg => reg.text ++ " used before definition"
  | notInt value => "expected i32, got " ++ value.shown
  | notBool value => "expected i1, got " ++ value.shown
  | notPtr value => "expected ptr, got " ++ value.shown
  | badLoad address => "load from invalid address " ++ address.shown
  | badStore address => "store to invalid address " ++ address.shown
  | badResult value => "returned " ++ value.shown

inductive Fault where
  | divisionByZero (function : String)
  /-- The quotient of the least integer and minus one is out of range. -/
  | divisionOverflow (function : String)
  | unknownFunction (name : String)
  | unsupportedFormat (format : String)
  | unreachable (function : String)
  | stepLimit (limit : Nat)
  | depthLimit (limit : Nat)
  | malformed (function : String) (defect : Defect)
deriving DecidableEq, Repr

namespace Fault

def message : Fault → String
  | divisionByZero function => "division by zero in function " ++ function
  | divisionOverflow function => "signed division overflow in function " ++ function
  | unknownFunction name => "call to undefined function " ++ name
  | unsupportedFormat format => "unsupported printf format " ++ Text.quote format
  | unreachable function => "reached unreachable code in function " ++ function
  | stepLimit limit => "program did not finish within " ++ toString limit ++ " steps"
  | depthLimit limit => "call depth exceeded " ++ toString limit
  | malformed function defect => "malformed IR in function " ++ function ++ ": " ++ defect.wording

def code : Fault → String
  | divisionByZero _ => "oli::run::division_by_zero"
  | divisionOverflow _ => "oli::run::division_overflow"
  | unknownFunction _ => "oli::run::unknown_function"
  | unsupportedFormat _ => "oli::run::format"
  | unreachable _ => "oli::run::unreachable"
  | stepLimit _ => "oli::run::step_limit"
  | depthLimit _ => "oli::run::stack_overflow"
  | malformed _ _ => "oli::run::malformed"

def diagnostic (fault : Fault) : Diagnostic := ⟨fault.message, fault.code, none, []⟩

end Fault

end OliCompiler.Machine
