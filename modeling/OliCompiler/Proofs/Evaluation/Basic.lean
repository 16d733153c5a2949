import OliCompiler.Machine

/-!
What direct evaluations of trees share. An evaluation keeps the locals of the call in progress, the
globals and the text printed so far. It ends with a value or tells why it has none; loops get a number
of rounds, so that it always ends.
-/

namespace OliCompiler.Evaluation

/-- Why an evaluation has no value. -/
inductive Stop where
  | fault (fault : Machine.Fault)
  /-- A local was read that no declaration and no assignment had reached. -/
  | unset
  /-- A loop had no rounds left. -/
  | rounds
deriving DecidableEq, Repr

/-- What all calls of an evaluation share. -/
structure World where
  globals : String → Int32
  output : String

namespace World

/-- The world before an evaluation: every global is zero. -/
def initial : World := ⟨fun _ => 0, ""⟩

def setGlobal (world : World) (name : String) (value : Int32) : World :=
  { world with globals := fun other => if other = name then value else world.globals other }

end World

/-- The state of a call. Its locals go by keys, and one that was never assigned to is unset. -/
structure State (Key : Type) where
  locals : Key → Option Int32
  world : World

namespace State

variable {Key : Type} [DecidableEq Key]

def setLocal (state : State Key) (key : Key) (value : Int32) : State Key :=
  { state with locals := fun other => if other = key then some value else state.locals other }

def setGlobal (state : State Key) (name : String) (value : Int32) : State Key :=
  { state with world := state.world.setGlobal name value }

end State

/-- How an evaluation goes. -/
structure Rules where
  /-- How many calls may be in progress at once. -/
  maxDepth : Nat
  /-- How often the test of a loop may be made. -/
  rounds : Nat
  /-- Whether an unset local stops the evaluation; otherwise it reads as zero. -/
  strict : Bool := false
deriving DecidableEq, Repr

/-- What reading a local gives. -/
def Rules.read (rules : Rules) : Option Int32 → Except Stop Int32
  | some value => .ok value
  | none => if rules.strict then .error .unset else .ok 0

/-- How a statement ends. -/
inductive Exit where
  | next
  | broke
  | continued
  | returned (value : Int32)
deriving DecidableEq, Repr

/-- The value of a call whose body ended in some way; falling off the end gives zero. -/
def Exit.result : Exit → Int32
  | returned value => value
  | next | broke | continued => 0

/-- What a call of the function `name` with arguments leads to. -/
abbrev Calls := String → List Int32 → World → Except Stop (Int32 × World)

/-- The value of an arithmetic operation on integers without bounds, in a function. A quotient is cut off
towards zero; there is none by zero, and none that is too great for 32 bits. -/
def calculate (function : String) : Arith → Int → Int → Except Machine.Fault Int
  | .add, a, b => .ok (a + b)
  | .sub, a, b => .ok (a - b)
  | .mul, a, b => .ok (a * b)
  | .div, a, b =>
    if b = 0 then .error (.divisionByZero function)
    else if 2147483647 < a.tdiv b then .error (.divisionOverflow function)
    else .ok (a.tdiv b)

/-- Whether a comparison holds between integers. -/
def compares : Comparison → Int → Int → Bool
  | .eq, a, b => a = b
  | .ne, a, b => a ≠ b
  | .lt, a, b => a < b
  | .le, a, b => a ≤ b
  | .gt, a, b => b < a
  | .ge, a, b => b ≤ a

/-- The value of an operation in a function: what 32 bits hold of that of the integers, and of a comparison one
if it holds and else zero. -/
def operate (function : String) : BinaryOp → Int32 → Int32 → Except Stop Int32
  | .arith op, a, b => ((calculate function op a.toInt b.toInt).map Int32.ofInt).mapError .fault
  | .compare op, a, b => .ok (if compares op a.toInt b.toInt then 1 else 0)

/-- Prints an integer on a line of its own; gives the number of bytes printed. -/
def printLine (value : Int32) (world : World) : Int32 × World :=
  let line := toString value.toInt ++ "\n"
  (Int32.ofNat line.utf8ByteSize, { world with output := world.output ++ line })

variable {σ : Type}

/-- Repeats a test, a body and an update, as often as the test gives something other than zero and
the body does not leave the loop. -/
def loop (test : σ → Except Stop (Int32 × σ)) (body : σ → Except Stop (Exit × σ))
    (update : σ → Except Stop σ) : Nat → σ → Except Stop (Exit × σ)
  | 0, _ => .error .rounds
  | rounds + 1, state => do
    let (value, state) ← test state
    if value = 0 then
      return (.next, state)
    else
      let (exit, state) ← body state
      match exit with
      | .broke => return (.next, state)
      | .returned value => return (.returned value, state)
      | .next | .continued => do
        let state ← update state
        loop test body update rounds state

end OliCompiler.Evaluation
