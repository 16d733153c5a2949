import OliCompiler.Text.Quoted

/-!
What registers hold while intermediate code runs. A value can be shown with its kind, as faults do.
-/

namespace OliCompiler.Machine

/-- What a pointer points to: a global, or a slot of the stack. -/
inductive Address where
  | global (name : String)
  | stack (index : Nat)
deriving DecidableEq, Repr

inductive Value where
  | int (value : Int32)
  | bool (value : Bool)
  | ptr (address : Address)
deriving DecidableEq, Repr

def Address.shown : Address → String
  | global name => "Global(" ++ Text.quote name ++ ")"
  | stack index => "Stack(" ++ toString index ++ ")"

def Value.shown : Value → String
  | int value => "Int(" ++ toString value.toInt ++ ")"
  | bool value => "Bool(" ++ (if value then "true" else "false") ++ ")"
  | ptr address => "Ptr(" ++ address.shown ++ ")"

/-- A value that may be missing. -/
def shownOption : Option Value → String
  | none => "None"
  | some value => "Some(" ++ value.shown ++ ")"

end OliCompiler.Machine
