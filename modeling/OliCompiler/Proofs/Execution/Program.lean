import OliCompiler.Proofs.Execution.Calls

/-!
Runs of whole modules. The entry function computes the first values of the globals and then does what
the body of `main` tells, so a run comes to the outcome of the direct evaluation, after enough steps.
-/

namespace OliCompiler.Machine

open Ir Evaluation Lower

variable {image : Image} {rules : Rules} {symbols : Symbols} {calls : Calls} {world : World}
  {program : Scoped.Program} {module : Ir.Module}

/-- The code of the first values of globals assigns them. -/
theorem initials_simulates {activation : Activation}
    (rig : Simulating image rules symbols activation calls) {n n' : Nat}
    {globals : List (String × Scoped.Expr)} {code rest : Code} {start : Tracked}
    (initials : InitialsCode activation.slots n globals code n')
    (settled : ∀ global ∈ globals, global.1 ∈ symbols.globals ∧ global.2.InScope symbols 0)
    (placed : code ++ rest <:+ activation.code)
    (matching : Matches activation symbols.globals (code ++ rest) ⟨fun _ => none, world⟩ start) :
    Simulates image rules rules.rounds start
      (fun world last => Matches activation symbols.globals rest ⟨fun _ => none, world⟩ last)
      (Scoped.Expr.evaluateGlobals rules calls activation.routine.function.name globals world) := by
  induction initials generalizing world start with
  | nil => exact .done matching
  | @cons n m n' name value globals code operand code' word others ih =>
    obtain ⟨⟨declared, first⟩, settled⟩ := List.forall_mem_cons.mp settled
    rw [List.append_assoc] at placed matching
    have apart := apart_of_suffix rig.laid placed
    apply (word_simulates rig (Nat.zero_le _) word first apart matching).bind
    intro result middle done
    rcases result with ⟨value, world⟩
    rcases done with ⟨computed, found⟩
    have stored : Scoped.Var.InScope symbols 0 (.global name) := declared
    refine .through (computed.matching.store stored (Nat.zero_le _) found) ?_
    intro last done
    rcases done with ⟨arrived, _⟩
    have behind : code' ++ rest <:+ activation.code :=
      (List.suffix_cons _ _).trans ((List.suffix_append _ _).trans placed)
    exact ih settled behind arrived

/-- The code of the entry function comes to a return of the result of `main`. -/
theorem main_simulates {code : Code} {store : Store} {stored : Nat → Bool} {depth : Nat}
    {callers : List (Frame × Option Reg)} {routine : Routine} (prints : PrintsLines image)
    (settled : program.WellScoped)
    (agree : CallsAgree image rules program.symbols depth calls)
    (shows : Shows program.symbols.globals store world)
    (lowers : MainCode program (.label ⟨0⟩ "entry" :: code))
    (lowered : routine.function = codeFunction entryName [] (.label ⟨0⟩ "entry" :: code)) :
    Simulates image rules rules.rounds
      ⟨⟨opening routine [] code [] depth store.stack.size, callers, store⟩, stored⟩
      (fun (value, world) last => Returning
        ⟨routine, .label ⟨0⟩ "entry" :: code, depth, callers, store.stack, stored⟩
        program.symbols.globals value world last) (do
      let world ← Scoped.Expr.evaluateGlobals rules calls entryName program.globals world
      Scoped.Stmt.evaluateBody rules calls entryName [] program.main world) := by
  cases lowers with
  | @mk first body falls slots m n k all globals lowers =>
    have layout := lowers.main_layout globals
    have name : entryName = routine.function.name := (congrArg Ir.Function.name lowered).symm
    let activation : Activation := ⟨routine, .label ⟨0⟩ "entry" :: (first ++ (body ++ closed falls)),
      depth, callers, store.stack, stored⟩
    have same : slots = activation.slots := by
      simp [all, activation, Activation.slots, Code.slots, globals.slots_eq]
    subst same
    have rig : Simulating image rules program.symbols activation calls :=
      ⟨laid_of_layout layout lowered, agree, prints⟩
    have placed : first ++ (body ++ closed falls) <:+ activation.code := List.suffix_cons _ _
    have known : ∀ global ∈ program.globals,
        global.1 ∈ program.symbols.globals ∧ global.2.InScope program.symbols 0 :=
      fun global member => ⟨List.mem_map.mpr ⟨global, member, rfl⟩, settled.globals global member⟩
    have enough : 0 + Scoped.Stmt.declaresAll program.main ≤ activation.slots.length :=
      Nat.le_of_eq (by rw [all, lowers.slots_length, Nat.zero_add])
    refine .through (entered_path layout shows) ?_
    intro middle done
    rcases done with ⟨matching, _⟩
    rw [name]
    apply (initials_simulates rig globals known placed matching).bind
    intro world last arrived
    exact body_simulates rig lowers Nat.zero_lt_one settled.main enough
      ((List.suffix_append _ _).trans placed) arrived

theorem initial_global {names : List (String × Scoped.Expr)} {globals : Std.HashMap String Int32}
    {name : String} (known : name ∈ names.map Prod.fst ∨ globals[name]? = some 0) :
    ((names.map fun global => zeroGlobal global.1).foldl (fun globals global =>
      match global.init with
      | .int value => globals.insert global.name value
      | .text _ => globals) globals)[name]? = some 0 := by
  induction names generalizing globals with
  | nil => exact known.resolve_left List.not_mem_nil
  | cons first names ih =>
    apply ih
    by_cases same : first.1 = name
    · exact .inr (by simp [zeroGlobal, same])
    · refine known.imp (fun member => (List.mem_cons.mp member).resolve_left (Ne.symm same)) ?_
      intro held
      simpa [zeroGlobal, Std.HashMap.getElem?_insert, same] using held

/-- Before a run, every global of the program is zero. -/
theorem shows_initial (shape : ModuleOf program module) :
    Shows program.symbols.globals (.initial module) .initial where
  globals := by
    intro name member
    have listed : name ∈ program.globals.map Prod.fst := member
    simp only [Store.initial, shape.globals]
    exact initial_global (.inl listed)
  output := rfl

/-- What is there when a run is about to end with an outcome. -/
structure Ending (execution : Execution) (last : Tracked) : Prop where
  ends : ∀ image maxDepth, ∃ store,
    last.config.step image maxDepth = .ok (.finished (.int execution.exitCode) store) ∧
      store.output = execution.output
  read : last.readsUnset = false

theorem Returning.ending {activation : Activation} {globals : List String} {value : Int32}
    {last : Tracked} (returns : Returning activation globals value world last)
    (waiting : activation.callers = []) : Ending ⟨value, world.output⟩ last := by
  obtain ⟨locals, memory⟩ := returns.memory
  refine ⟨fun image maxDepth => ⟨last.config.store.shrink last.config.frame.base, ?_, ?_⟩,
    Tracked.readsUnset_nil returns.ended⟩
  · rw [returns.returns, Config.leave, returns.callers, waiting]
  · exact memory.shows.output

/-- A run whose entry function may be called does what the direct evaluation tells. -/
theorem program_simulates (settled : program.WellScoped) (shape : ModuleOf program module)
    (positive : 0 < rules.maxDepth) :
    ∃ frame, enter (.ofModule module) rules.maxDepth (.initial module) 0 entryName [] =
        .ok (.opened frame, .initial module) ∧
      Simulates (.ofModule module) rules rules.rounds
        ⟨⟨frame, [], .initial module⟩, fun _ => false⟩ Ending (program.evaluate rules) := by
  obtain ⟨depth, deep⟩ := Nat.exists_eq_succ_of_ne_zero (Nat.ne_of_gt positive)
  obtain ⟨routine, code, known, lowers, lowered⟩ := routine_main shape
  refine ⟨_, enter_shallow known lowered rfl positive, ?_⟩
  have agree : CallsAgree (.ofModule module) rules program.symbols 0
    (Scoped.Function.evaluate rules program.functions depth) := calls_agree settled shape (by omega)
  have evaluated : program.evaluate rules = (do
      let calls := Scoped.Function.evaluate rules program.functions depth
      let world ← Scoped.Expr.evaluateGlobals rules calls entryName program.globals .initial
      Scoped.Stmt.evaluateBody rules calls entryName [] program.main world) >>=
        fun (value, world) => pure ⟨value, world.output⟩ := by
    simp only [Scoped.Program.evaluate, deep, bind_assoc]
  rw [evaluated]
  apply (main_simulates (prints_lines shape) settled agree (shows_initial shape) lowers lowered).bind
  intro result last returns
  rcases result with ⟨value, world⟩
  exact .done (returns.ending rfl)

/-- Without room for a single call, there is neither a run nor an evaluation. -/
theorem program_deep (shape : ModuleOf program module) (deep : rules.maxDepth = 0) :
    enter (.ofModule module) rules.maxDepth (.initial module) 0 entryName [] =
        .error (.depthLimit rules.maxDepth) ∧
      program.evaluate rules = .error (.fault (.depthLimit rules.maxDepth)) := by
  obtain ⟨routine, code, known, _, lowered⟩ := routine_main shape
  refine ⟨enter_deep known lowered (Nat.le_of_eq deep), ?_⟩
  simp only [Scoped.Program.evaluate, deep]

/-- There is no room for a single call, or the run of the entry function does what the direct evaluation
tells. -/
theorem program_runs (rules : Rules) (settled : program.WellScoped)
    (shape : ModuleOf program module) :
    (enter (.ofModule module) rules.maxDepth (.initial module) 0 entryName [] =
        .error (.depthLimit rules.maxDepth) ∧
      program.evaluate rules = .error (.fault (.depthLimit rules.maxDepth))) ∨
    ∃ frame, enter (.ofModule module) rules.maxDepth (.initial module) 0 entryName [] =
        .ok (.opened frame, .initial module) ∧
      Simulates (.ofModule module) rules rules.rounds
        ⟨⟨frame, [], .initial module⟩, fun _ => false⟩ Ending (program.evaluate rules) := by
  rcases Nat.eq_zero_or_pos rules.maxDepth with deep | positive
  · exact .inl (program_deep shape deep)
  · exact .inr (program_simulates settled shape positive)

section

variable {frame : Frame} {steps : Nat} {last : Tracked}

/-- A run that gets to a configuration and ends there has its outcome from some number of steps on. -/
theorem run_of_path {strict : Bool} {outcome : Except Fault Execution} {maxDepth : Nat}
    (entered : enter (.ofModule module) maxDepth (.initial module) 0 entryName [] =
      .ok (.opened frame, .initial module))
    (path : Path (.ofModule module) maxDepth strict steps
      ⟨⟨frame, [], .initial module⟩, fun _ => false⟩ last)
    (ends : ∀ limits more, limits.depth = maxDepth →
      runFrom (.ofModule module) limits (more + 1) last.config = outcome) (limit : Nat) :
    run module ⟨limit, maxDepth⟩ = if limit < steps + 1 then .error (.stepLimit limit) else outcome := by
  simp only [run, entered, bind, Except.bind]
  by_cases short : limit < steps + 1
  · rw [if_pos short]
    exact @Path.runFrom_limit _ _ _ _ _ ⟨limit, maxDepth⟩ path _ (Nat.le_of_lt_succ short)
  · obtain ⟨more, rfl⟩ := Nat.exists_eq_add_of_le (Nat.not_lt.mp short)
    rw [if_neg short, Nat.add_assoc, Nat.add_comm 1]
    exact (@Path.runFrom_eq _ _ _ _ _ ⟨steps + (more + 1), maxDepth⟩ path _).trans (ends _ more rfl)

theorem Ending.runFrom_eq {execution : Execution} (ending : Ending execution last) (limits : Limits)
    (more : Nat) : runFrom image limits (more + 1) last.config = .ok execution := by
  obtain ⟨store, stepped, output⟩ := ending.ends image limits.depth
  rw [runFrom, stepped]
  simp only [bind, Except.bind, finish, output]

theorem runFrom_fault {fault : Fault} {limits : Limits} (more : Nat)
    (stepped : last.config.step image limits.depth = .error fault) :
    runFrom image limits (more + 1) last.config = .error fault := by
  rw [runFrom, stepped]
  rfl

end

section

variable (settled : program.WellScoped) (shape : ModuleOf program module)
include settled shape

theorem run_of_outcome {outcome : Except Fault Execution}
    (evaluated : program.evaluate rules = outcome.mapError .fault) :
    ∃ enough, ∀ steps, run module ⟨steps, rules.maxDepth⟩ =
      if steps < enough then .error (.stepLimit steps) else outcome := by
  rcases program_runs rules settled shape with ⟨entered, faulted⟩ | ⟨frame, entered, simulates⟩
  · rw [faulted] at evaluated
    cases outcome with
    | ok => cases evaluated
    | error fault =>
      obtain rfl := Stop.fault.inj (Except.error.inj evaluated)
      refine ⟨0, fun steps => ?_⟩
      simp only [run, entered]
      rfl
  · rw [evaluated] at simulates
    cases outcome with
    | ok execution =>
      obtain ⟨steps, last, path, ending⟩ := simulates
      exact ⟨steps + 1, run_of_path entered path fun limits more _ => ending.runFrom_eq limits more⟩
    | error fault =>
      obtain ⟨steps, last, path, _, stepped⟩ := simulates
      refine ⟨steps + 1, run_of_path entered path fun limits more same => ?_⟩
      rw [← same] at stepped
      exact runFrom_fault more stepped

theorem run_of_rounds {steps : Nat} (evaluated : program.evaluate rules = .error .rounds)
    (le : steps ≤ rules.rounds) : run module ⟨steps, rules.maxDepth⟩ = .error (.stepLimit steps) := by
  rcases program_runs rules settled shape with ⟨_, faulted⟩ | ⟨frame, entered, simulates⟩
  · rw [faulted] at evaluated
    cases evaluated
  · rw [evaluated] at simulates
    obtain ⟨taken, last, long, path⟩ := simulates
    simp only [run, entered, bind, Except.bind]
    exact @Path.runFrom_limit _ _ _ _ _ ⟨steps, rules.maxDepth⟩ path _ (Nat.le_trans le long)

/-- An evaluation that does not stop at an unset local tells a run that reads no unset slot. -/
theorem readsUnset_of_outcome {outcome : Except Fault Execution} (strict : rules.strict = true)
    (evaluated : program.evaluate rules = outcome.mapError .fault) (steps : Nat) :
    readsUnset module ⟨steps, rules.maxDepth⟩ = false := by
  rcases program_runs rules settled shape with ⟨entered, _⟩ | ⟨frame, entered, simulates⟩
  · simp only [readsUnset, entered]
  · rw [evaluated] at simulates
    obtain ⟨taken, last, path, still⟩ : ∃ taken last,
        Path (.ofModule module) rules.maxDepth true taken
          ⟨⟨frame, [], .initial module⟩, fun _ => false⟩ last ∧
        ∀ more, Tracked.readsUnsetWithin (.ofModule module) rules.maxDepth more last = false := by
      cases outcome with
      | ok execution =>
        obtain ⟨taken, last, path, ending⟩ := simulates
        refine ⟨taken, last, strict ▸ path, fun more => ?_⟩
        obtain ⟨store, stepped, _⟩ := ending.ends (.ofModule module) rules.maxDepth
        cases more <;> simp [Tracked.readsUnsetWithin, ending.read, stepped]
      | error fault =>
        obtain ⟨taken, last, path, read, stepped⟩ := simulates
        refine ⟨taken, last, strict ▸ path, fun more => ?_⟩
        cases more <;> simp [Tracked.readsUnsetWithin, read strict, stepped]
    simp only [readsUnset, entered]
    rcases Nat.le_total steps taken with short | long
    · exact path.readsUnsetWithin_eq_false short
    · obtain ⟨more, rfl⟩ := Nat.exists_eq_add_of_le long
      rw [path.readsUnsetWithin_eq, still]

theorem readsUnset_of_rounds {steps : Nat} (strict : rules.strict = true)
    (evaluated : program.evaluate rules = .error .rounds) (le : steps ≤ rules.rounds) :
    readsUnset module ⟨steps, rules.maxDepth⟩ = false := by
  rcases program_runs rules settled shape with ⟨entered, _⟩ | ⟨frame, entered, simulates⟩
  · simp only [readsUnset, entered]
  · rw [evaluated] at simulates
    obtain ⟨taken, last, long, path⟩ := simulates
    rw [strict] at path
    simp only [readsUnset, entered]
    exact path.readsUnsetWithin_eq_false (Nat.le_trans le long)

/-- Only a strict evaluation stops at an unset local, and it tells a run that reads an unset slot. -/
theorem readsUnset_of_unset (evaluated : program.evaluate rules = .error .unset) :
    rules.strict = true ∧ ∃ steps, readsUnset module ⟨steps, rules.maxDepth⟩ = true := by
  rcases program_runs rules settled shape with ⟨_, faulted⟩ | ⟨frame, entered, simulates⟩
  · rw [faulted] at evaluated
    cases evaluated
  · rw [evaluated] at simulates
    obtain ⟨strict, taken, last, path, reads⟩ := simulates
    rw [strict] at path
    refine ⟨strict, taken + 1, ?_⟩
    simp only [readsUnset, entered]
    rw [path.readsUnsetWithin_eq, Tracked.readsUnsetWithin, reads, Bool.true_or]

end

end OliCompiler.Machine
