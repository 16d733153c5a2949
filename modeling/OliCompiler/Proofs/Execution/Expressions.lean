import OliCompiler.Proofs.Execution.Matching
import OliCompiler.Proofs.Execution.Operations
import OliCompiler.Proofs.Lowering.Account

/-!
The code of an expression computes its value. Registers below those of the code keep what they hold,
so operands computed earlier are still there.
-/

namespace OliCompiler.Machine

open Ir Evaluation Lower

/-- Whether an operand has the value of an expression: the integer, or the truth value of which the
integer is one or zero. -/
def HasValue (frame : Frame) (value : Int32) : Lower.Result → Prop
  | .word operand => frame.operand operand = .ok (.int value)
  | .truth operand => ∃ holds : Bool,
      frame.operand operand = .ok (.bool holds) ∧ value = if holds then 1 else 0

/-- Whether registers below a number hold what they held. -/
def Keeps (n : Nat) (before after : Frame) : Prop :=
  ∀ reg : Reg, reg.index < n → after.registers[reg]? = before.registers[reg]?

theorem Keeps.refl {n : Nat} {frame : Frame} : Keeps n frame frame := fun _ _ => rfl

theorem Keeps.trans {n m : Nat} {first second third : Frame} (one : Keeps n first second)
    (two : Keeps m second third) (le : n ≤ m) : Keeps n first third :=
  fun reg low => (two reg (Nat.lt_of_lt_of_le low le)).trans (one reg low)

theorem Keeps.assign {n m : Nat} {frame : Frame} {todo : List Instr} {value : Value} (le : n ≤ m) :
    Keeps n frame ((frame.goOn todo).assign (some ⟨m⟩) value) := by
  intro reg low
  have different : ((⟨m⟩ : Reg) == reg) = false := by
    apply beq_false_of_ne
    rintro rfl
    exact Nat.not_lt.mpr le low
  simp [Frame.assign, Frame.goOn, Std.HashMap.getElem?_insert, different]

/-- Whether an operand is no register from a number on. -/
def Below (n : Nat) : Operand → Prop
  | .reg reg => reg.index < n
  | .int _ | .global _ => True

theorem Keeps.operand {n : Nat} {before after : Frame} {operand : Operand} {value : Value}
    (keeps : Keeps n before after) (below : Below n operand)
    (found : before.operand operand = .ok value) : after.operand operand = .ok value := by
  cases operand with
  | reg reg =>
    simp only [Frame.operand, keeps reg below] at found ⊢
    cases held : before.registers[reg]? with
    | none =>
      rw [held] at found
      cases found
    | some _ =>
      rw [held] at found
      exact found
  | int | global => exact found

variable {slots : List Reg}

theorem exprCode_below {n n' : Nat} {value : Scoped.Expr} {code : List Instr} {operand : Operand}
    (computed : ExprCode slots n value code (.word operand) n') : Below n' operand := by
  cases computed with
  | int => trivial
  | var | print | call | arith => exact Nat.lt_succ_self _

theorem wordCode_below {n n' : Nat} {value : Scoped.Expr} {code : List Instr} {operand : Operand}
    (word : WordCode slots n value code operand n') : Below n' operand := by
  cases word with
  | word same => exact exprCode_below same
  | truth => exact Nat.lt_succ_self _

variable {activation : Activation} {globals : List String} {image : Image} {rules : Rules}

/-- Calls from frames of a depth do what direct calls tell. They come back to the frame with the
result, and leave the stack below them alone. -/
def CallsAgree (image : Image) (rules : Rules) (symbols : Symbols) (depth : Nat) (calls : Calls) :
    Prop :=
  ∀ ⦃callee : String⦄ ⦃args : List Int32⦄ ⦃world : World⦄ ⦃start : Tracked⦄ ⦃result : Option Reg⦄
    ⦃operands : List Operand⦄ ⦃todo : List Instr⦄,
    (callee, args.length) ∈ symbols.functions → start.config.frame.depth = depth →
    start.config.frame.todo = ⟨result, .call callee operands⟩ :: todo →
    start.config.frame.operands operands = .ok (args.map .int) →
    Shows symbols.globals start.config.store world →
    Simulates image rules rules.rounds start (fun (value, world) last =>
      last.config.frame = (start.config.frame.goOn todo).assign result (.int value) ∧
      last.config.callers = start.config.callers ∧
      last.config.store.stack = start.config.store.stack ∧
      (∀ index < start.config.store.stack.size, last.stored index = start.stored index) ∧
      Shows symbols.globals last.config.store world) (calls callee args world)

/-- What is there when an expression has been computed. -/
structure Computed (activation : Activation) (globals : List String) (n : Nat) (rest : Code)
    (locals : Nat → Option Int32) (start : Tracked) (world : World) (last : Tracked) : Prop where
  matching : Matches activation globals rest ⟨locals, world⟩ last
  keeps : Keeps n start.config.frame last.config.frame

theorem Computed.trans {n m : Nat} {middle rest : Code} {locals : Nat → Option Int32}
    {start between last : Tracked} {world world' : World}
    (first : Computed activation globals n middle locals start world between)
    (second : Computed activation globals m rest locals between world' last) (le : n ≤ m) :
    Computed activation globals n rest locals start world' last :=
  ⟨second.matching, first.keeps.trans second.keeps le⟩

/-- Whether instructions leave the registers of stack slots alone. -/
def Apart (activation : Activation) (instrs : List Instr) : Prop :=
  ∀ instr ∈ instrs, ∀ reg, instr.result = some reg → reg ∉ activation.slots

theorem Apart.append {first second : List Instr} :
    Apart activation (first ++ second) ↔ Apart activation first ∧ Apart activation second :=
  List.forall_mem_append

/-- The line that the printer prints for an integer. -/
def lineOf (value : Int32) : String := toString value.toInt ++ "\n"

/-- Whether the printer prints an integer on a line of its own. -/
def PrintsLines (image : Image) : Prop :=
  ∀ (maxDepth : Nat) (store : Store) (depth : Nat) (value : Int32),
    enter image maxDepth store depth printerName [.ptr (.global formatName), .int value] =
      .ok (.returned (.int (Int32.ofNat (lineOf value).utf8ByteSize)), store.print (lineOf value))

/-- What a simulation of a call relies on. -/
structure Simulating (image : Image) (rules : Rules) (symbols : Symbols) (activation : Activation)
    (calls : Calls) : Prop where
  laid : Laid activation
  calls : CallsAgree image rules symbols activation.depth calls
  prints : PrintsLines image

section

variable {n m : Nat} {op : Op} {rest : Code} {locals : Nat → Option Int32} {world : World}
  {start : Tracked} {value : Value}

/-- A step that only gives a value gets on to the code behind the instruction. -/
theorem Matches.advance
    (matching : Matches activation globals (.instr ⟨some ⟨n⟩, op⟩ :: rest) ⟨locals, world⟩ start)
    (apart : Apart activation [⟨some ⟨n⟩, op⟩]) (le : m ≤ n) (unmarked : start.mark = start.stored)
    (read : rules.strict = true → start.readsUnset = false)
    (stepped : start.config.step image rules.maxDepth = .ok (.running
      ⟨(start.config.frame.goOn (Code.body rest)).assign (some ⟨n⟩) value, start.config.callers,
        start.config.store⟩)) :
    ∃ steps last, Path image rules.maxDepth rules.strict steps start last ∧
      Computed activation globals m rest locals start world last ∧
      last.config.frame.operand (.reg ⟨n⟩) = .ok value := by
  refine ⟨1, _, .one stepped read, ⟨⟨?_, ?_, matching.callers⟩, Keeps.assign le⟩, operand_assign⟩
  · exact matching.standing.assign (apart _ (List.mem_singleton.mpr rfl)) value
  · rw [unmarked]
    exact matching.memory

end

variable {symbols : Symbols} {calls : Calls} {count : Nat} {locals : Nat → Option Int32}

/-- The code of a variable loads its value, or stops at a local that is not set. -/
theorem load_simulates {n : Nat} {var : Scoped.Var} {rest : Code} {world : World} {start : Tracked}
    (le : count ≤ activation.slots.length) (settled : var.InScope symbols count)
    (apart : Apart activation [⟨some ⟨n⟩, .load (place activation.slots var)⟩])
    (matching : Matches activation symbols.globals
      (.instr ⟨some ⟨n⟩, .load (place activation.slots var)⟩ :: rest) ⟨locals, world⟩ start) :
    Simulates image rules rules.rounds start (fun value last =>
      Computed activation symbols.globals n rest locals start world last ∧
        last.config.frame.operand (.reg ⟨n⟩) = .ok (.int value))
      (var.evaluate rules locals world) := by
  have next := matching.standing.todo
  have found := matching.standing.place settled le
  have loaded := matching.memory.load settled le
  have unmarked : start.mark = start.stored := by simp [Tracked.mark, next, Code.body]
  have reads : start.readsUnset = unset locals var := by
    simp only [Tracked.readsUnset, next, Code.body, Frame.ptr_eq found]
    cases var with
    | «local» slot =>
      have cell := (matching.memory.cells slot (Nat.lt_of_lt_of_le settled le)).2
      simp only [Activation.address, cell, unset]
      cases locals slot <;> rfl
    | global => rfl
  rw [evaluate_var]
  by_cases stops : (rules.strict && unset locals var) = true
  · rw [if_pos stops]
    rw [Bool.and_eq_true] at stops
    exact ⟨stops.1, 0, start, .refl, reads.trans stops.2⟩
  · rw [if_neg stops]
    refine matching.advance apart (Nat.le_refl n) unmarked ?_ (step_load next found loaded)
    intro strict
    simpa [strict, reads] using stops

/-- The code of an operation computes it, or faults as it does. -/
theorem operate_simulates {n m : Nat} {op : BinaryOp} {code : Op} {left right : Operand} {a b : Int32}
    {rest : Code} {world : World} {start : Tracked}
    (same : (∃ arith, op = .arith arith ∧ code = .arith (arithOf arith) left right) ∨
      ∃ comparison, op = .compare comparison ∧ code = .compare (conditionOf comparison) left right)
    (apart : Apart activation [⟨some ⟨n⟩, code⟩]) (le : m ≤ n)
    (matching : Matches activation symbols.globals (.instr ⟨some ⟨n⟩, code⟩ :: rest)
      ⟨locals, world⟩ start)
    (first : start.config.frame.operand left = .ok (.int a))
    (second : start.config.frame.operand right = .ok (.int b)) :
    Simulates image rules rules.rounds start (fun value last =>
      Computed activation symbols.globals m rest locals start world last ∧
        HasValue last.config.frame value (match op with
          | .arith _ => .word (.reg ⟨n⟩)
          | .compare _ => .truth (.reg ⟨n⟩)))
      (operate activation.routine.function.name op a b) := by
  have next := matching.standing.todo
  rcases same with ⟨op, rfl, rfl⟩ | ⟨op, rfl, rfl⟩
  · have unmarked := Tracked.mark_plain next trivial
    have read := Tracked.readsUnset_plain next trivial
    have stepped : start.config.step image rules.maxDepth = _ := step_arith next first second
    have name : start.config.frame.function = activation.routine.function :=
      congrArg Routine.function matching.standing.routine
    rw [name] at stepped
    rw [arith_eq] at stepped
    simp only [operate]
    cases result : calculate activation.routine.function.name op a.toInt b.toInt with
    | ok value =>
      rw [result] at stepped
      exact matching.advance apart le unmarked (fun _ => read) stepped
    | error fault =>
      rw [result] at stepped
      exact .fault stepped fun _ => read
  · have unmarked := Tracked.mark_plain next trivial
    have read := Tracked.readsUnset_plain next trivial
    obtain ⟨steps, last, path, computed, holds⟩ := matching.advance apart le unmarked
      (fun _ => read) (step_compare next first second)
    exact ⟨steps, last, path, computed, compares op a.toInt b.toInt, holds_eq op a b ▸ holds, rfl⟩

/-- The code of a print prints the line of its value. -/
theorem print_simulates {n m : Nat} {operand : Operand} {value : Int32} {rest : Code} {world : World}
    {start : Tracked} (prints : PrintsLines image)
    (apart : Apart activation [⟨some ⟨n⟩, .call printerName [.global formatName, operand]⟩])
    (le : m ≤ n)
    (matching : Matches activation symbols.globals
      (.instr ⟨some ⟨n⟩, .call printerName [.global formatName, operand]⟩ :: rest)
      ⟨locals, world⟩ start)
    (found : start.config.frame.operand operand = .ok (.int value)) :
    Simulates image rules rules.rounds start (fun (value, world) last =>
      Computed activation symbols.globals m rest locals start world last ∧
        last.config.frame.operand (.reg ⟨n⟩) = .ok (.int value)) (.ok (printLine value world)) := by
  have next := matching.standing.todo
  have operands : start.config.frame.operands [.global formatName, operand] =
      .ok [.ptr (.global formatName), .int value] := by
    simp only [Frame.operands, found]
    rfl
  have stepped : start.config.step image rules.maxDepth = _ := step_call next operands
  rw [prints] at stepped
  refine ⟨1, _, .one stepped fun _ => Tracked.readsUnset_plain next trivial, ?_, operand_assign⟩
  refine ⟨⟨matching.standing.assign (apart _ (List.mem_singleton.mpr rfl)) _, ?_,
    matching.callers⟩, Keeps.assign le⟩
  rw [Tracked.mark_plain next trivial]
  have shows := matching.memory.shows
  refine ⟨matching.memory.size, matching.memory.under, matching.memory.cells, shows.globals, ?_⟩
  exact congrArg (· ++ lineOf value) shows.output

/-- The code of a call does what the call does, and comes back with its result. -/
theorem call_simulates {n m : Nat} {callee : String} {operands : List Operand} {args : List Int32}
    {rest : Code} {world : World} {start : Tracked}
    (agree : CallsAgree image rules symbols activation.depth calls)
    (declared : (callee, args.length) ∈ symbols.functions)
    (apart : Apart activation [⟨some ⟨n⟩, .call callee operands⟩]) (le : m ≤ n)
    (matching : Matches activation symbols.globals (.instr ⟨some ⟨n⟩, .call callee operands⟩ :: rest)
      ⟨locals, world⟩ start)
    (found : start.config.frame.operands operands = .ok (args.map .int)) :
    Simulates image rules rules.rounds start (fun (value, world) last =>
      Computed activation symbols.globals m rest locals start world last ∧
        last.config.frame.operand (.reg ⟨n⟩) = .ok (.int value)) (calls callee args world) := by
  apply (agree declared matching.standing.depth matching.standing.todo found
    matching.memory.shows).mono
  intro result last done
  rcases result with ⟨value, world⟩
  rcases done with ⟨frame, callers, stack, stored, shows⟩
  have size := matching.memory.size
  refine ⟨⟨⟨?_, ?_, callers.trans matching.callers⟩, ?_⟩, frame ▸ operand_assign⟩
  · rw [frame]
    exact matching.standing.assign (apart _ (List.mem_singleton.mpr rfl)) _
  · refine ⟨stack ▸ size, ?_, ?_, shows⟩
    · intro index less
      rw [stack, stored index (by omega)]
      exact matching.memory.under index less
    · intro slot less
      rw [stack, stored _ (by omega)]
      exact matching.memory.cells slot less
  · rw [frame]
    exact Keeps.assign le

mutual

theorem expr_simulates (rig : Simulating image rules symbols activation calls)
    (le : count ≤ activation.slots.length) : ∀ {n n' : Nat} {value : Scoped.Expr}
    {code : List Instr} {result : Lower.Result},
    ExprCode activation.slots n value code result n' → value.InScope symbols count →
      Apart activation code → ∀ {rest : Code} {world : World} {start : Tracked},
      Matches activation symbols.globals (Code.ofInstrs code ++ rest) ⟨locals, world⟩ start →
      Simulates image rules rules.rounds start (fun (value, world) last =>
        Computed activation symbols.globals n rest locals start world last ∧
          HasValue last.config.frame value result)
        (value.evaluate rules calls activation.routine.function.name locals world)
  | _, _, _, _, _, .int, _, _, _, _, _, matching => .done ⟨⟨matching, .refl⟩, rfl⟩
  | _, _, _, _, _, .var, settled, apart, _, _, _, matching => by
    refine (load_simulates le settled apart matching).bind fun value last computed => ?_
    exact .done computed
  | _, _, _, _, _, .print argument, settled, apart, rest, world, start, matching => by
    rw [Apart.append] at apart
    rw [Code.ofInstrs_append, List.append_assoc] at matching
    apply (word_simulates rig le argument settled apart.1 matching).bind
    intro result middle done
    rcases result with ⟨value, world⟩
    rcases done with ⟨one, found⟩
    exact (print_simulates rig.prints apart.2 argument.defines.le one.matching found).mono
      fun _ last two => ⟨one.trans two.1 (Nat.le_refl _), two.2⟩
  | _, _, _, _, _, .call arguments, settled, apart, rest, world, start, matching => by
    rw [Apart.append] at apart
    rw [Code.ofInstrs_append, List.append_assoc] at matching
    apply (words_simulates rig le arguments settled.2 apart.1 matching).bind
    intro result middle done
    rcases result with ⟨values, world⟩
    rcases done with ⟨one, found, length⟩
    exact (call_simulates rig.calls (length ▸ settled.1) apart.2 arguments.defines.le one.matching
      found).mono fun _ last two => ⟨one.trans two.1 (Nat.le_refl _), two.2⟩
  | _, _, _, _, _, .arith first second, settled, apart, rest, world, start, matching => by
    rw [Apart.append, Apart.append] at apart
    rw [Code.ofInstrs_append, Code.ofInstrs_append, List.append_assoc, List.append_assoc] at matching
    apply (word_simulates rig le first settled.1 apart.1.1 matching).bind
    intro result middle done
    rcases result with ⟨a, world⟩
    rcases done with ⟨one, foundFirst⟩
    apply (word_simulates rig le second settled.2 apart.1.2 one.matching).bind
    intro result last done
    rcases result with ⟨b, world⟩
    rcases done with ⟨two, foundSecond⟩
    have foundFirst := two.keeps.operand (wordCode_below first) foundFirst
    refine (operate_simulates (.inl ⟨_, rfl, rfl⟩) apart.2 second.defines.le two.matching foundFirst
      foundSecond).bind fun value final computed => .done ?_
    exact ⟨one.trans (two.trans computed.1 (Nat.le_refl _)) first.defines.le, computed.2⟩
  | _, _, _, _, _, .compare first second, settled, apart, rest, world, start, matching => by
    rw [Apart.append, Apart.append] at apart
    rw [Code.ofInstrs_append, Code.ofInstrs_append, List.append_assoc, List.append_assoc] at matching
    apply (word_simulates rig le first settled.1 apart.1.1 matching).bind
    intro result middle done
    rcases result with ⟨a, world⟩
    rcases done with ⟨one, foundFirst⟩
    apply (word_simulates rig le second settled.2 apart.1.2 one.matching).bind
    intro result last done
    rcases result with ⟨b, world⟩
    rcases done with ⟨two, foundSecond⟩
    have foundFirst := two.keeps.operand (wordCode_below first) foundFirst
    refine (operate_simulates (.inr ⟨_, rfl, rfl⟩) apart.2 second.defines.le two.matching foundFirst
      foundSecond).bind fun value final computed => .done ?_
    exact ⟨one.trans (two.trans computed.1 (Nat.le_refl _)) first.defines.le, computed.2⟩

theorem word_simulates (rig : Simulating image rules symbols activation calls)
    (le : count ≤ activation.slots.length) : ∀ {n n' : Nat} {value : Scoped.Expr}
    {code : List Instr} {operand : Operand},
    WordCode activation.slots n value code operand n' → value.InScope symbols count →
      Apart activation code → ∀ {rest : Code} {world : World} {start : Tracked},
      Matches activation symbols.globals (Code.ofInstrs code ++ rest) ⟨locals, world⟩ start →
      Simulates image rules rules.rounds start (fun (value, world) last =>
        Computed activation symbols.globals n rest locals start world last ∧
          last.config.frame.operand operand = .ok (.int value))
        (value.evaluate rules calls activation.routine.function.name locals world)
  | _, _, _, _, _, .word same, settled, apart, _, _, _, matching =>
    expr_simulates rig le same settled apart matching
  | _, _, _, _, _, .truth narrow, settled, apart, rest, world, start, matching => by
    rw [Apart.append] at apart
    rw [Code.ofInstrs_append, List.append_assoc] at matching
    apply (expr_simulates rig le narrow settled apart.1 matching).onward
    intro result middle done
    rcases result with ⟨value, world⟩
    rcases done with ⟨one, holds, found, rfl⟩
    have next := one.matching.standing.todo
    obtain ⟨steps, last, path, two, wide⟩ := one.matching.advance apart.2 narrow.defines.le
      (Tracked.mark_plain next trivial) (fun _ => Tracked.readsUnset_plain next trivial)
      (step_widen next found)
    exact ⟨steps, last, path, one.trans two (Nat.le_refl _), wide⟩

theorem words_simulates (rig : Simulating image rules symbols activation calls)
    (le : count ≤ activation.slots.length) : ∀ {n n' : Nat} {values : List Scoped.Expr}
    {code : List Instr} {operands : List Operand},
    WordsCode activation.slots n values code operands n' → Scoped.Expr.AllInScope symbols count values →
      Apart activation code → ∀ {rest : Code} {world : World} {start : Tracked},
      Matches activation symbols.globals (Code.ofInstrs code ++ rest) ⟨locals, world⟩ start →
      Simulates image rules rules.rounds start (fun (results, world) last =>
        Computed activation symbols.globals n rest locals start world last ∧
          last.config.frame.operands operands = .ok (results.map .int) ∧
          results.length = values.length)
        (Scoped.Expr.evaluateAll rules calls activation.routine.function.name locals values world)
  | _, _, _, _, _, .nil, _, _, _, _, _, matching => .done ⟨⟨matching, .refl⟩, rfl, rfl⟩
  | _, _, _, _, _, .cons first others, settled, apart, rest, world, start, matching => by
    rw [Apart.append] at apart
    rw [Code.ofInstrs_append, List.append_assoc] at matching
    apply (word_simulates rig le first settled.1 apart.1 matching).bind
    intro result middle done
    rcases result with ⟨value, world⟩
    rcases done with ⟨one, found⟩
    apply (words_simulates rig le others settled.2 apart.2 one.matching).bind
    intro result last done
    rcases result with ⟨values, world⟩
    rcases done with ⟨two, foundOthers, length⟩
    have found := two.keeps.operand (wordCode_below first) found
    refine .done ⟨one.trans two first.defines.le, ?_, by simpa using length⟩
    simp only [Frame.operands, found, foundOthers]
    rfl

end

end OliCompiler.Machine
