import OliCompiler.Proofs.Execution.Lookup
import OliCompiler.Proofs.Execution.Statements
import OliCompiler.Proofs.Lowering.Layout

/-!
A call of a lowered function does what the direct call does. The entry block makes the stack slots and
takes the arguments over, the body ends at a return, and the caller goes on with the result and with its
stack as it was.
-/

namespace OliCompiler.Machine

open Ir Evaluation Lower

variable {activation : Activation} {globals : List String} {image : Image} {rules : Rules}
  {symbols : Symbols} {calls : Calls} {start last : Tracked}

/-- What the instructions that make stack slots change. -/
structure Allotted (regs : List Reg) (todo : List Instr) (start last : Tracked) : Prop where
  frame : last.config.frame =
    { start.config.frame with todo := todo, registers := last.config.frame.registers }
  callers : last.config.callers = start.config.callers
  store : last.config.store =
    { start.config.store with
      stack := start.config.store.stack ++ Array.replicate regs.length 0 }
  stored : ∀ index, last.stored index =
    (decide (index < start.config.store.stack.size ∨
      start.config.store.stack.size + regs.length ≤ index) && start.stored index)
  slots : ∀ {slot : Nat} {reg : Reg}, regs[slot]? = some reg →
    last.config.frame.registers[reg]? = some (.ptr (.stack (start.config.store.stack.size + slot)))
  others : ∀ reg ∉ regs, last.config.frame.registers[reg]? = start.config.frame.registers[reg]?

theorem Allotted.nil {todo : List Instr} (next : start.config.frame.todo = todo) :
    Allotted [] todo start start where
  frame := congrArg (fun todo => { start.config.frame with todo := todo }) next
  callers := rfl
  store := by simp
  stored := by
    intro index
    have within : index < start.config.store.stack.size ∨ start.config.store.stack.size ≤ index :=
      Nat.lt_or_ge index _
    simp [within]
  slots := by simp
  others := by simp

/-- Where a run is behind an instruction that makes a stack slot. -/
def Tracked.behindSlot (start : Tracked) (reg : Reg) (todo : List Instr) : Tracked :=
  ⟨⟨(start.config.frame.goOn todo).assign (some reg) (.ptr (.stack start.config.store.stack.size)),
    start.config.callers, start.config.store.push.2⟩, start.mark⟩

theorem Allotted.cons {reg : Reg} {regs : List Reg} {todo : List Instr} (absent : reg ∉ regs)
    (next : start.config.frame.todo = slotInstrs (reg :: regs) ++ todo)
    (done : Allotted regs todo (start.behindSlot reg (slotInstrs regs ++ todo)) last) :
    Allotted (reg :: regs) todo start last := by
  have size : (start.behindSlot reg (slotInstrs regs ++ todo)).config.store.stack.size =
      start.config.store.stack.size + 1 := Array.size_push 0
  have marked : (start.behindSlot reg (slotInstrs regs ++ todo)).stored = fun index =>
      if index = start.config.store.stack.size then false else start.stored index := by
    simp [Tracked.behindSlot, Tracked.mark, next, slotInstrs]
  refine ⟨?_, done.callers, ?_, ?_, ?_, ?_⟩
  · rw [done.frame]
    rfl
  · rw [done.store]
    simp [Tracked.behindSlot, Store.push, ← Array.toList_inj, List.replicate_succ]
  · intro index
    rw [done.stored, marked, size, List.length_cons]
    by_cases here : index = start.config.store.stack.size
    · have fresh : ¬start.config.store.stack.size + (regs.length + 1) ≤
          start.config.store.stack.size := by omega
      simp [here, fresh]
    · simp only [here, if_false]
      congr 1
      rw [decide_eq_decide]
      omega
  · intro slot other found
    cases slot with
    | zero =>
      obtain rfl := Option.some.inj found
      rw [done.others reg absent]
      simp [Tracked.behindSlot, Frame.assign]
    | succ slot =>
      rw [done.slots found, size, Nat.add_assoc, Nat.add_comm 1]
  · intro other outside
    obtain ⟨different, outside⟩ := not_or.mp (List.mem_cons.not.mp outside)
    rw [done.others other outside]
    simp [Tracked.behindSlot, Frame.assign, Frame.goOn, Std.HashMap.getElem?_insert,
      Ne.symm different]

theorem slots_path {maxDepth : Nat} {strict : Bool} {regs : List Reg} {todo : List Instr}
    (distinct : regs.Nodup) (next : start.config.frame.todo = slotInstrs regs ++ todo) :
    ∃ last, Path image maxDepth strict regs.length start last ∧ Allotted regs todo start last := by
  induction regs generalizing start with
  | nil => exact ⟨start, .refl, .nil next⟩
  | cons reg regs ih =>
    obtain ⟨absent, distinct⟩ := List.nodup_cons.mp distinct
    have read : start.readsUnset = false := by simp [Tracked.readsUnset, next, slotInstrs]
    obtain ⟨last, path, done⟩ := @ih (start.behindSlot reg (slotInstrs regs ++ todo)) distinct rfl
    exact ⟨last, .step (step_slot next) (fun _ => read) path, .cons absent next done⟩

/-- The registers of a call, whose parameters hold the arguments. -/
def opened (params : List Reg) (args : List Value) (registers : Registers) : Registers :=
  (params.zip args).foldl (fun registers (reg, value) => registers.insert reg value) registers

theorem opened_other {params : List Reg} {args : List Value} {registers : Registers} {reg : Reg}
    (absent : reg ∉ params) : (opened params args registers)[reg]? = registers[reg]? := by
  induction params generalizing args registers with
  | nil => rfl
  | cons param params ih =>
    obtain ⟨different, absent⟩ := not_or.mp (List.mem_cons.not.mp absent)
    cases args with
    | nil => rfl
    | cons value args =>
      exact (ih absent).trans (by simp [Std.HashMap.getElem?_insert, Ne.symm different])

theorem opened_params {params : List Reg} {args : List Value} {registers : Registers}
    (distinct : params.Nodup) (same : params.length = args.length) :
    List.Forall₂ (fun reg value => (opened params args registers)[reg]? = some value) params args := by
  induction params generalizing args registers with
  | nil =>
    obtain rfl := List.length_eq_zero_iff.mp same.symm
    exact .nil
  | cons param params ih =>
    obtain ⟨absent, distinct⟩ := List.nodup_cons.mp distinct
    cases args with
    | nil => cases same
    | cons value args =>
      refine .cons ?_ (ih distinct (Nat.succ.inj same))
      exact (opened_other absent).trans Std.HashMap.getElem?_insert_self

/-- The frame with which a call of a lowered function starts. -/
def opening (routine : Routine) (params : List Reg) (code : Code) (args : List Value)
    (depth base : Nat) : Frame where
  routine := routine
  block := entryBlock code
  todo := (entryBlock code).instrs
  registers := opened params args ∅
  base := base
  depth := depth

section

variable {routine : Routine} {name : String} {params : List Reg} {code : Code} {args : List Value}
  {store : Store} {depth maxDepth : Nat}

theorem enter_deep (found : image.routine? name = some routine)
    (lowered : routine.function = codeFunction name params (.label ⟨0⟩ "entry" :: code))
    (deep : maxDepth ≤ depth) :
    enter image maxDepth store depth name args = .error (.depthLimit maxDepth) := by
  have inside : routine.function.external = false := congrArg Ir.Function.external lowered
  simp [enter, found, inside, deep]

theorem enter_shallow (found : image.routine? name = some routine)
    (lowered : routine.function = codeFunction name params (.label ⟨0⟩ "entry" :: code))
    (arity : args.length = params.length) (shallow : depth < maxDepth) :
    enter image maxDepth store depth name args =
      .ok (.opened (opening routine params code args depth store.stack.size), store) := by
  have inside : routine.function.external = false := congrArg Ir.Function.external lowered
  have entry : routine.function.entry? = some (entryBlock code) := by
    rw [lowered, Ir.Function.entry?, codeFunction_blocks]
    rfl
  have listed : routine.function.params = params.map (·, .i32) :=
    congrArg Ir.Function.params lowered
  simp [enter, found, inside, Nat.not_le.mpr shallow, listed, arity, entry, opening, opened,
    Function.comp_def]

variable {arity : Nat} {callers : List (Frame × Option Reg)} {stored : Nat → Bool} {world : World}

theorem laid_of_layout {stack : Array Int32} (layout : Layout arity code)
    (lowered : routine.function = codeFunction name params (.label ⟨0⟩ "entry" :: code)) :
    Laid ⟨routine, .label ⟨0⟩ "entry" :: code, depth, callers, stack, stored⟩ where
  block := by
    intro id hint rest placed inside
    rw [Routine.block?_eq, lowered]
    exact layout.block?_eq inside placed
  apart := by
    intro instr member reg result
    have member : .instr instr ∈ code := (List.mem_cons.mp member).resolve_left Piece.noConfusion
    have absent : reg ∉ Code.slots code := Code.not_mem_slots layout.distinct member result
    exact absent

/-- A call gets behind its stack slots, which are unset, and its parameters hold the arguments. -/
theorem entered_path {strict : Bool} (layout : Layout arity code)
    (shows : Shows globals store world) :
    ∃ steps last, Path image maxDepth strict steps
        ⟨⟨opening routine params code args depth store.stack.size, callers, store⟩, stored⟩ last ∧
      Matches ⟨routine, .label ⟨0⟩ "entry" :: code, depth, callers, store.stack, stored⟩ globals code
        ⟨fun _ => none, world⟩ last ∧
      ∀ reg ∉ Code.slots code,
        last.config.frame.registers[reg]? = (opened params args ∅)[reg]? := by
  have distinct : (Code.slots code).Nodup := layout.distinct.sublist (Code.slots_sublist code)
  obtain ⟨last, path, done⟩ : ∃ last, Path image maxDepth strict (Code.slots code).length
      ⟨⟨opening routine params code args depth store.stack.size, callers, store⟩, stored⟩ last ∧
      Allotted (Code.slots code) (Code.body code) _ last := slots_path distinct rfl
  refine ⟨_, last, path, ⟨⟨?_, ?_, ?_, ?_, ?_, done.slots⟩, ⟨?_, ?_, ?_, ?_⟩, done.callers⟩, done.others⟩
  · rw [done.frame]
    rfl
  · rw [done.frame]
    rfl
  · rw [done.frame]
    rfl
  · rw [done.frame]
  · rw [done.frame]
    rfl
  · simp [done.store, Activation.slots, Code.slots]
  · intro index less
    have less : index < store.stack.size := less
    rw [done.store, done.stored]
    simp [Array.getElem?_append, less]
  · intro slot less
    have less : slot < (Code.slots code).length := less
    have fresh : ¬(store.stack.size + slot < store.stack.size ∨
        store.stack.size + (Code.slots code).length ≤ store.stack.size + slot) := by omega
    refine ⟨?_, (done.stored _).trans ?_⟩
    · rw [done.store]
      simp [less]
    · exact congrArg (· && _) (decide_eq_false fresh)
  · rw [done.store]
    exact ⟨shows.globals, shows.output⟩

end

variable {rest : Code} {world : World}

theorem set_append {before : List Int32} {value : Int32} :
    (Scoped.Var.local before.length).set value ⟨fun slot => before[slot]?, world⟩ =
      ⟨fun slot => (before ++ [value])[slot]?, world⟩ := by
  refine congrArg (State.mk · world) (funext fun slot => ?_)
  rcases Nat.lt_trichotomy slot before.length with less | rfl | more
  · simp [List.getElem?_append, less, Nat.ne_of_lt less]
  · simp
  · have outside : (before ++ [value])[slot]? = none :=
      List.getElem?_eq_none (by rw [List.length_append]; exact more)
    rw [outside, if_neg (Nat.ne_of_gt more)]
    exact List.getElem?_eq_none (Nat.le_of_lt more)

/-- The code that takes the arguments over gives the first locals their values. -/
theorem params_path (before : List Int32) {regs : List Reg} {values : List Int32} {n : Nat}
    (slots : ∀ offset < regs.length, activation.slots[before.length + offset]? = some ⟨n + offset⟩)
    (held : List.Forall₂ (fun (reg : Reg) value =>
      start.config.frame.registers[reg]? = some (.int value)) regs values)
    (matching : Matches activation symbols.globals (paramsCode n regs ++ rest)
      ⟨fun slot => before[slot]?, world⟩ start) :
    ∃ steps last, Path image rules.maxDepth rules.strict steps start last ∧
      Matches activation symbols.globals rest ⟨fun slot => (before ++ values)[slot]?, world⟩ last := by
  induction regs generalizing n before values start with
  | nil =>
    cases held
    rw [List.append_nil]
    exact ⟨0, start, .refl, matching⟩
  | cons reg regs ih =>
    cases held with
    | @cons _ value _ values first others =>
      have numbered : activation.slots[before.length]? = some ⟨n⟩ :=
        slots 0 (Nat.zero_lt_succ _)
      obtain ⟨steps, middle, path, arrived, registers⟩ : ∃ steps middle,
          Path image rules.maxDepth rules.strict steps start middle ∧ _ :=
        Matches.declare matching numbered (operand_reg first)
      have shifted : ∀ offset < regs.length,
          activation.slots[(before ++ [value]).length + offset]? = some ⟨n + 1 + offset⟩ := by
        intro offset less
        simpa [Nat.add_assoc, Nat.add_comm 1] using slots (offset + 1) (Nat.succ_lt_succ less)
      rw [set_append] at arrived
      obtain ⟨more, last, rest, done⟩ := ih (before ++ [value]) shifted (registers ▸ others) arrived
      refine ⟨_, last, path.trans rest, ?_⟩
      simpa using done

/-- What is there when a call stands at the return of a value. -/
structure Returning (activation : Activation) (globals : List String) (value : Int32) (world : World)
    (last : Tracked) : Prop where
  returns : ∀ image maxDepth,
    last.config.step image maxDepth = .ok (last.config.leave (.int value))
  ended : last.config.frame.todo = []
  base : last.config.frame.base = activation.stack.size
  callers : last.config.callers = activation.callers
  memory : ∃ locals, Memory activation globals ⟨locals, world⟩ last.config.store last.stored

theorem returning {operand : Operand} {value : Int32} {locals : Nat → Option Int32}
    (matching : Matches activation globals (.exit (.ret operand) :: rest) ⟨locals, world⟩ last)
    (found : last.config.frame.operand operand = .ok (.int value)) :
    Returning activation globals value world last :=
  ⟨fun _ _ => step_ret matching.standing.todo matching.standing.ending found, matching.standing.todo,
    matching.standing.base, matching.callers, locals, matching.memory⟩

/-- However a body ends, the call comes to the return of its result. -/
theorem returning_of_ends {falls : Bool} {exit : Exit} {locals : Nat → Option Int32}
    (ends : EndsAt activation globals none falls (closed falls) (exit, ⟨locals, world⟩) last) :
    Returning activation globals exit.result world last := by
  cases exit with
  | next =>
    obtain ⟨rfl, matching⟩ := ends
    exact returning matching rfl
  | broke | continued =>
    obtain ⟨_, ⟨⟩, _⟩ := ends
  | returned value =>
    obtain ⟨operand, rest, matching, found⟩ := ends
    exact returning matching found

/-- Below the locals, the stack is that of the calls that wait. -/
theorem Memory.shrink {state : State Nat} {store : Store} {stored : Nat → Bool}
    (memory : Memory activation globals state store stored) :
    store.stack.shrink activation.stack.size = activation.stack := by
  have size := memory.size
  refine Array.ext_getElem? fun index => ?_
  rw [Array.shrink_eq_take, Array.take, Array.getElem?_extract]
  by_cases less : index < activation.stack.size
  · rw [if_pos (by omega), Nat.zero_add]
    exact (memory.under index less).1
  · rw [if_neg (by omega), Array.getElem?_eq_none (Nat.not_lt.mp less)]

/-- The caller goes on with the result, with its stack as it was. -/
theorem Returning.leave {value : Int32} {frame : Frame} {result : Option Reg}
    {callers : List (Frame × Option Reg)} (returns : Returning activation globals value world last)
    (waiting : activation.callers = (frame, result) :: callers) :
    ∃ steps further, Path image rules.maxDepth rules.strict steps last further ∧
      further.config.frame = frame.assign result (.int value) ∧
      further.config.callers = callers ∧
      further.config.store.stack = activation.stack ∧
      (∀ index < activation.stack.size, further.stored index = activation.stored index) ∧
      Shows globals further.config.store world := by
  obtain ⟨locals, memory⟩ := returns.memory
  have stepped : last.config.step image rules.maxDepth = .ok (.running ⟨frame.assign result (.int value),
      callers, last.config.store.shrink last.config.frame.base⟩) := by
    rw [returns.returns, Config.leave, returns.callers, waiting]
  refine ⟨1, _, .one stepped fun _ => Tracked.readsUnset_nil returns.ended, rfl, rfl, ?_, ?_, ?_⟩
  · rw [returns.base]
    exact memory.shrink
  · rw [Tracked.mark_nil returns.ended]
    exact fun index less => (memory.under index less).2
  · exact ⟨memory.shows.globals, memory.shows.output⟩

/-- The code of a body comes to a return of its result. -/
theorem body_simulates (rig : Simulating image rules symbols activation calls) {n n' k k' count : Nat}
    {stmts : List Scoped.Stmt} {code : Code} {falls : Bool} {state : State Nat}
    (body : StmtsCode activation.slots none n k true stmts code falls n' k') (positive : 0 < k)
    (settled : Scoped.Stmt.AllInScope symbols false count stmts)
    (enough : count + Scoped.Stmt.declaresAll stmts ≤ activation.slots.length)
    (placed : code ++ closed falls <:+ activation.code)
    (matching : Matches activation symbols.globals (code ++ closed falls) state start) :
    Simulates image rules rules.rounds start
      (fun (value, world) last => Returning activation symbols.globals value world last) (do
        let (exit, state) ← Scoped.Stmt.evaluateAll rules calls activation.routine.function.name
          stmts state
        return (exit.result, state.world)) := by
  have leads : Leads activation none none := trivial
  apply (stmts_does rig body rfl positive settled enough leads placed matching).bind
  intro ended last ends
  rcases ended with ⟨exit, state⟩
  exact .done (returning_of_ends ends)

variable {program : Scoped.Program} {module : Ir.Module}

theorem params_held {arity : Nat} {code : Code} {args : List Int32} {frame : Frame}
    (layout : Layout arity code) (same : args.length = arity)
    (held : ∀ reg ∉ Code.slots code,
      frame.registers[reg]? = (opened (paramRegs arity) (args.map .int) ∅)[reg]?) :
    List.Forall₂ (fun (reg : Reg) value => frame.registers[reg]? = some (.int value))
      (paramRegs arity) args := by
  have length : (paramRegs arity).length = (args.map Value.int).length := by simp [same]
  have distinct : (paramRegs arity).Nodup := List.nodup_range.map fun _ _ same => Reg.mk.inj same
  have registers := (List.forall₂_and_left _ _).mpr
    ⟨fun reg => layout.params_apart, @opened_params _ _ ∅ distinct length⟩
  apply (List.forall₂_map_right_iff.mp registers).imp
  intro reg value both
  rcases both with ⟨apart, holds⟩
  exact (held reg apart).trans holds

/-- The code of a function, run on some arguments, comes to a return of the result of its body. -/
theorem function_simulates {function : Scoped.Function} {code : Code} {args : List Int32}
    {store : Store} {stored : Nat → Bool} {depth : Nat} {callers : List (Frame × Option Reg)}
    {routine : Routine} (prints : PrintsLines image)
    (agree : CallsAgree image rules symbols depth calls)
    (settled : Scoped.Stmt.AllInScope symbols false function.arity function.body)
    (arity : args.length = function.arity) (shows : Shows symbols.globals store world)
    (lowers : FunctionCode function (.label ⟨0⟩ "entry" :: code))
    (lowered : routine.function =
      codeFunction function.name (paramRegs function.arity) (.label ⟨0⟩ "entry" :: code)) :
    Simulates image rules rules.rounds
      ⟨⟨opening routine (paramRegs function.arity) code (args.map .int) depth store.stack.size, callers,
        store⟩, stored⟩
      (fun (value, world) last => Returning
        ⟨routine, .label ⟨0⟩ "entry" :: code, depth, callers, store.stack, stored⟩
        symbols.globals value world last)
      (Scoped.Stmt.evaluateBody rules calls function.name args function.body world) := by
  cases lowers with
  | @mk body falls slots n k all lowers =>
    have layout := lowers.function_layout
    have name : function.name = routine.function.name := (congrArg Ir.Function.name lowered).symm
    generalize whole : paramsCode function.arity (paramRegs function.arity) ++
      (body ++ closed falls) = code at *
    let activation : Activation :=
      ⟨routine, .label ⟨0⟩ "entry" :: code, depth, callers, store.stack, stored⟩
    have same : slots = activation.slots := by
      rw [all, Activation.slots, Code.slots, ← whole]
      simp
    subst same
    have params : activation.slots =
        numbered function.arity (function.arity + function.arity) ++ Code.slots body := by
      rw [all, Code.slots_append, slots_paramsCode, length_paramRegs]
    have numbers : ∀ offset < (paramRegs function.arity).length,
        activation.slots[([] : List Int32).length + offset]? = some ⟨function.arity + offset⟩ := by
      intro offset less
      rw [length_paramRegs] at less
      rw [params, List.length_nil, Nat.zero_add, List.getElem?_append_left, getElem?_numbered]
      · omega
      · simpa [numbered] using less
    refine .through (entered_path layout shows) ?_
    intro middle done
    rcases done with ⟨matching, held⟩
    have bare : Matches activation symbols.globals (paramsCode function.arity
        (paramRegs function.arity) ++ (body ++ closed falls))
        ⟨fun slot => ([] : List Int32)[slot]?, world⟩ middle := by
      rw [whole]
      exact matching
    refine .through (params_path [] numbers (params_held layout arity held) bare) ?_
    intro last arrived
    have rig : Simulating image rules symbols activation calls :=
      ⟨laid_of_layout layout lowered, agree, prints⟩
    have enough : function.arity + Scoped.Stmt.declaresAll function.body ≤ activation.slots.length := by
      rw [params, List.length_append, lowers.slots_length]
      simp [numbered]
    have placed : body ++ closed falls <:+ activation.code := by
      refine List.IsSuffix.trans ?_ (List.suffix_cons _ code)
      rw [← whole]
      exact List.suffix_append _ _
    have done := body_simulates rig lowers Nat.zero_lt_one settled enough placed arrived
    rw [Scoped.Stmt.evaluateBody, name]
    exact done

/-- Calls of the functions of a program do what the direct calls do. The induction is on how many
calls may still be made inside of one another. -/
theorem calls_agree (settled : program.WellScoped) (shape : ModuleOf program module)
    {left depth : Nat} (total : depth + 1 + left = rules.maxDepth) :
    CallsAgree (.ofModule module) rules program.symbols depth
      (Scoped.Function.evaluate rules program.functions left) := by
  induction left generalizing depth with
  | zero =>
    intro callee args world start result operands todo declared atDepth next computed shows
    obtain ⟨_, _, _, _, routine, code, known, _, lowered⟩ := routine_declared settled shape declared
    have stepped : start.config.step (.ofModule module) rules.maxDepth = _ := step_call next computed
    rw [enter_deep known lowered (by omega)] at stepped
    exact .fault stepped fun _ => Tracked.readsUnset_plain next trivial
  | succ left ih =>
    intro callee args world start result operands todo declared atDepth next computed shows
    obtain ⟨function, member, rfl, arity, routine, code, known, lowers, lowered⟩ :=
      routine_declared settled shape declared
    rw [← arity] at lowered
    have stepped : start.config.step (.ofModule module) rules.maxDepth = _ := step_call next computed
    rw [enter_shallow known lowered (by simp [arity]) (by omega), atDepth] at stepped
    have agree : CallsAgree (.ofModule module) rules program.symbols (depth + 1) _ :=
      @ih (depth + 1) (by omega)
    simp only [Scoped.Function.evaluate, find?_function settled.names member, arity, if_true]
    refine (Simulates.along (.one stepped fun _ => Tracked.readsUnset_plain next trivial)
      (function_simulates (prints_lines shape) agree (settled.functions function member) arity.symm
        shows lowers lowered)).onward ?_
    intro result last returns
    rcases result with ⟨value, world⟩
    rw [Tracked.mark_plain next trivial] at returns
    exact returns.leave rfl

end OliCompiler.Machine
