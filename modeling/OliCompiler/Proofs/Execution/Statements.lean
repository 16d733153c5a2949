import OliCompiler.Proofs.Execution.Expressions

/-!
The code of a statement does what the statement does. Control gets to the code behind it, to the blocks
that `break` and `continue` lead to, or to a return with the value.
-/

namespace OliCompiler.Machine

open Ir Evaluation Lower

/-- Whether a jump to a block leads to some code of the call. -/
def Lands (activation : Activation) (id : BlockId) (rest : Code) : Prop :=
  id ≠ ⟨0⟩ ∧ ∃ hint, .label id hint :: rest <:+ activation.code

/-- The code that `break` and `continue` lead to. -/
structure Ways where
  exit : Code
  next : Code

/-- Where control is when a statement has ended in some way: where `break` or `continue` lead, at a
return with the value, or behind the statement, if control falls out of it at all. -/
def EndsAt (activation : Activation) (globals : List String) (ways : Option Ways) (falls : Bool)
    (behind : Code) : Exit × State Nat → Tracked → Prop
  | (.next, state), last => falls = true ∧ Matches activation globals behind state last
  | (.broke, state), last => ∃ way ∈ ways, Matches activation globals way.exit state last
  | (.continued, state), last => ∃ way ∈ ways, Matches activation globals way.next state last
  | (.returned value, state), last => ∃ operand rest,
      Matches activation globals (.exit (.ret operand) :: rest) state last ∧
        last.config.frame.operand operand = .ok (.int value)

/-- Whether the targets of the enclosing loop lead to some code. -/
def Leads (activation : Activation) : Option Targets → Option Ways → Prop
  | none, none => True
  | some targets, some ways =>
    Lands activation targets.exit ways.exit ∧ Lands activation targets.next ways.next
  | none, some _ | some _, none => False

variable {activation : Activation} {globals : List String} {image : Image} {rules : Rules}
  {symbols : Symbols} {calls : Calls} {count bound : Nat} {state : State Nat} {start : Tracked}
  {rest : Code}

theorem apart_of_suffix (laid : Laid activation) {instrs : List Instr}
    (placed : Code.ofInstrs instrs ++ rest <:+ activation.code) : Apart activation instrs := by
  intro instr member reg
  have listed : .instr instr ∈ Code.ofInstrs instrs ++ rest :=
    List.mem_append_left _ (List.mem_map.mpr ⟨instr, member, rfl⟩)
  exact laid.apart (placed.subset listed) reg

/-- A frame that has gone to the start of a block stands at the code of the block. -/
theorem Matches.enter {junk : Code} {id : BlockId} {hint : Option String}
    (matching : Matches activation globals junk state start) :
    Matches activation globals rest state
      ⟨{ start.config with
        frame := { start.config.frame with
          block := ⟨id, hint, Code.body rest, Code.ending rest⟩
          todo := Code.body rest } }, start.stored⟩ :=
  ⟨⟨matching.standing.routine, matching.standing.depth, matching.standing.base, rfl, rfl,
    matching.standing.slots⟩, matching.memory, matching.callers⟩

theorem Matches.jump {id : BlockId} {junk : Code} (laid : Laid activation)
    (matching : Matches activation globals (.exit (.jump id) :: junk) state start)
    (lands : Lands activation id rest) :
    ∃ last, Path image rules.maxDepth rules.strict 1 start last ∧
      Matches activation globals rest state last := by
  obtain ⟨inside, hint, placed⟩ := lands
  have next := matching.standing.todo
  have found := laid.block placed inside
  rw [← matching.standing.routine] at found
  refine ⟨_, .one (step_jump next matching.standing.ending found)
    fun _ => Tracked.readsUnset_nil next, ?_⟩
  rw [Tracked.mark_nil next]
  exact matching.enter

theorem Matches.branch {condition : Operand} {yes no : BlockId} {junk whenYes whenNo : Code}
    {value : Bool} (laid : Laid activation)
    (matching : Matches activation globals (.exit (.branch condition yes no) :: junk) state start)
    (tested : start.config.frame.operand condition = .ok (.bool value))
    (landsYes : Lands activation yes whenYes) (landsNo : Lands activation no whenNo) :
    ∃ last, Path image rules.maxDepth rules.strict 1 start last ∧
      Matches activation globals (if value then whenYes else whenNo) state last := by
  have next := matching.standing.todo
  have lands : Lands activation (if value then yes else no) (if value then whenYes else whenNo) := by
    cases value with
    | true => exact landsYes
    | false => exact landsNo
  obtain ⟨inside, hint, placed⟩ := lands
  have found := laid.block placed inside
  rw [← matching.standing.routine] at found
  refine ⟨_, .one (step_branch next matching.standing.ending tested found)
    fun _ => Tracked.readsUnset_nil next, ?_⟩
  rw [Tracked.mark_nil next]
  exact matching.enter

/-- A body that control falls out of goes on where its end jumps to. -/
theorem ends_joined {ways : Option Ways} {behind junk : Code} {falls : Bool} {target : BlockId}
    {ended : Exit × State Nat} (laid : Laid activation) (lands : Lands activation target behind)
    (ends : EndsAt activation globals ways falls (joined falls target ++ junk) ended start) :
    ∃ steps last, Path image rules.maxDepth rules.strict steps start last ∧
      EndsAt activation globals ways falls behind ended last := by
  obtain ⟨exit, state⟩ := ended
  cases exit with
  | next =>
    obtain ⟨rfl, matching⟩ := ends
    obtain ⟨last, path, arrived⟩ := Matches.jump laid matching lands
    exact ⟨1, last, path, rfl, arrived⟩
  | broke | continued | returned => exact ⟨0, start, .refl, ends⟩

/-- The store of a value to a variable is the assignment. -/
theorem Matches.store {var : Scoped.Var} {operand : Operand} {value : Int32}
    (matching : Matches activation symbols.globals
      (.instr ⟨none, .store (place activation.slots var) operand⟩ :: rest) state start)
    (settled : var.InScope symbols count) (le : count ≤ activation.slots.length)
    (found : start.config.frame.operand operand = .ok (.int value)) :
    ∃ steps last, Path image rules.maxDepth rules.strict steps start last ∧
      Matches activation symbols.globals rest (var.set value state) last ∧
      last.config.frame.registers = start.config.frame.registers := by
  have next := matching.standing.todo
  have address := matching.standing.place settled le
  obtain ⟨store, stored, memory⟩ := matching.memory.store settled le
  have read : start.readsUnset = false := by simp [Tracked.readsUnset, next, Code.body]
  have marked : start.mark = markAt (activation.address var) start.stored := by
    simp only [Tracked.mark, next, Code.body, Frame.ptr_eq address]
    cases var <;> rfl
  refine ⟨1, _, .one (step_store next address found stored) fun _ => read, ?_⟩
  rw [marked]
  exact ⟨⟨matching.standing.goOn, memory, matching.callers⟩, rfl⟩

/-- A stack slot and the store to it give the local its first value. -/
theorem Matches.declare {n slot : Nat} {operand : Operand} {value : Int32}
    (matching : Matches activation symbols.globals
      (.slot ⟨n⟩ :: .instr ⟨none, .store (.reg ⟨n⟩) operand⟩ :: rest) state start)
    (numbered : activation.slots[slot]? = some ⟨n⟩)
    (found : start.config.frame.operand operand = .ok (.int value)) :
    ∃ steps last, Path image rules.maxDepth rules.strict steps start last ∧
      Matches activation symbols.globals rest ((Scoped.Var.local slot).set value state) last ∧
      last.config.frame.registers = start.config.frame.registers := by
  have address : place activation.slots (.local slot) = .reg ⟨n⟩ := by
    rw [place, numbered, Option.getD_some]
  have stands : Matches activation symbols.globals
      (.instr ⟨none, .store (place activation.slots (.local slot)) operand⟩ :: rest) state start := by
    rw [address]
    exact ⟨matching.standing.skip, matching.memory, matching.callers⟩
  have bound : slot < activation.slots.length := (List.getElem?_eq_some_iff.mp numbered).1
  exact stands.store bound (Nat.le_refl _) found

theorem value_simulates (rig : Simulating image rules symbols activation calls)
    (le : count ≤ activation.slots.length) {n n' : Nat} {value : Scoped.Expr} {code : List Instr}
    {operand : Operand} (word : WordCode activation.slots n value code operand n')
    (settled : value.InScope symbols count)
    (placed : Code.ofInstrs code ++ rest <:+ activation.code)
    (matching : Matches activation symbols.globals (Code.ofInstrs code ++ rest) state start) :
    Simulates image rules rules.rounds start (fun (value, state) last =>
      Matches activation symbols.globals rest state last ∧
        last.config.frame.operand operand = .ok (.int value))
      (value.evaluateIn rules calls activation.routine.function.name state) := by
  have apart := apart_of_suffix rig.laid placed
  apply (word_simulates rig le word settled apart matching).bind
  intro result last done
  rcases result with ⟨value, world⟩
  rcases done with ⟨computed, found⟩
  exact .done ⟨computed.matching, found⟩

/-- The code of a test gives whether the value is other than zero. -/
theorem test_simulates (rig : Simulating image rules symbols activation calls)
    (le : count ≤ activation.slots.length) {n n' : Nat} {value : Scoped.Expr} {code : List Instr}
    {operand : Operand} (test : TestCode activation.slots n value code operand n')
    (settled : value.InScope symbols count)
    (placed : Code.ofInstrs code ++ rest <:+ activation.code)
    (matching : Matches activation symbols.globals (Code.ofInstrs code ++ rest) state start) :
    Simulates image rules rules.rounds start (fun (value, state) last =>
      Matches activation symbols.globals rest state last ∧
        last.config.frame.operand operand = .ok (.bool (decide (value ≠ 0))))
      (value.evaluateIn rules calls activation.routine.function.name state) := by
  have apart := apart_of_suffix rig.laid placed
  cases test with
  | truth same =>
    apply (expr_simulates rig le same settled apart matching).bind
    intro result last done
    rcases result with ⟨value, world⟩
    rcases done with ⟨computed, holds, found, rfl⟩
    refine .done ⟨computed.matching, ?_⟩
    cases holds <;> exact found
  | word wide =>
    rw [Apart.append] at apart
    rw [Code.ofInstrs_append, List.append_assoc] at matching
    apply (expr_simulates rig le wide settled apart.1 matching).bind
    intro result middle done
    rcases result with ⟨value, world⟩
    rcases done with ⟨one, found⟩
    have next := one.matching.standing.todo
    obtain ⟨steps, last, path, two, tested⟩ := one.matching.advance apart.2 (Nat.le_refl _)
      (Tracked.mark_plain next trivial) (fun _ => Tracked.readsUnset_plain next trivial)
      (step_compare next found rfl)
    exact ⟨steps, last, path, two.matching, tested⟩

theorem assign_simulates (rig : Simulating image rules symbols activation calls)
    (le : count ≤ activation.slots.length) {n n' : Nat} {var : Scoped.Var} {value : Scoped.Expr}
    {code : Code} (assigned : AssignCode activation.slots n var value code n')
    (found : var.InScope symbols count) (settled : value.InScope symbols count)
    (placed : code ++ rest <:+ activation.code)
    (matching : Matches activation symbols.globals (code ++ rest) state start) :
    Simulates image rules rules.rounds start
      (fun state last => Matches activation symbols.globals rest state last)
      (var.assign rules calls activation.routine.function.name value state) := by
  cases assigned with
  | mk word =>
    rw [List.append_assoc] at placed matching
    apply (value_simulates rig le word settled placed matching).bind
    intro result middle done
    rcases result with ⟨value, state⟩
    rcases done with ⟨one, computed⟩
    obtain ⟨steps, last, path, arrived, _⟩ := one.store found le computed
    exact ⟨steps, last, path, arrived⟩

theorem declare_simulates (rig : Simulating image rules symbols activation calls)
    (le : count ≤ activation.slots.length) {n n' slot : Nat} {value : Scoped.Expr} {code : Code}
    (declared : DeclareCode activation.slots n slot value code n')
    (settled : value.InScope symbols count) (placed : code ++ rest <:+ activation.code)
    (matching : Matches activation symbols.globals (code ++ rest) state start) :
    Simulates image rules rules.rounds start
      (fun state last => Matches activation symbols.globals rest state last)
      ((Scoped.Var.local slot).assign rules calls activation.routine.function.name value state) := by
  cases declared with
  | mk word numbered =>
    rw [List.append_assoc] at placed matching
    apply (value_simulates rig le word settled placed matching).bind
    intro result middle done
    rcases result with ⟨value, state⟩
    rcases done with ⟨one, computed⟩
    obtain ⟨steps, last, path, arrived, _⟩ := one.declare numbered computed
    exact ⟨steps, last, path, arrived⟩

/-- The code of a loop does what the loop does. Each round takes steps, so an evaluation that is short
of rounds stands for a run that is long. -/
theorem loop_simulates {test : State Nat → Except Stop (Int32 × State Nat)}
    {body : State Nat → Except Stop (Exit × State Nat)}
    {update : State Nat → Except Stop (State Nat)} {condition : Operand} {yes no : BlockId}
    {head inside again behind junk : Code} {ways : Option Ways} {falls : Bool} (laid : Laid activation)
    (landsYes : Lands activation yes inside) (landsNo : Lands activation no behind)
    (tests : ∀ {state start}, Matches activation globals head state start →
      Simulates image rules rules.rounds start (fun (value, state) last =>
        Matches activation globals (.exit (.branch condition yes no) :: junk) state last ∧
          last.config.frame.operand condition = .ok (.bool (decide (value ≠ 0)))) (test state))
    (bodies : ∀ {state start}, Matches activation globals inside state start →
      Simulates image rules rules.rounds start
        (EndsAt activation globals (some ⟨behind, again⟩) falls again) (body state))
    (updates : ∀ {state start}, Matches activation globals again state start →
      Simulates image rules rules.rounds start (Matches activation globals head) (update state))
    {rounds : Nat} (enough : rounds ≤ rules.rounds)
    (matching : Matches activation globals head state start) :
    Simulates image rules rounds start (EndsAt activation globals ways true behind)
      (loop test body update rounds state) := by
  induction rounds generalizing state start with
  | zero => exact ⟨0, start, Nat.le_refl 0, .refl⟩
  | succ rounds ih =>
    have fewer : rounds ≤ rules.rounds := Nat.le_of_succ_le enough
    apply ((tests matching).weaken enough).bind
    intro result middle done
    rcases result with ⟨value, state⟩
    rcases done with ⟨atBranch, tested⟩
    obtain ⟨next, path, arrived⟩ := atBranch.branch laid tested landsYes landsNo
    by_cases zero : value = 0
    · simp only [zero, if_true, ne_eq, not_true_eq_false, decide_false] at arrived ⊢
      exact ⟨1, next, path, rfl, arrived⟩
    · simp only [zero, if_false, ne_eq, not_false_eq_true, decide_true, if_true] at arrived ⊢
      rw [Nat.add_comm]
      apply Simulates.after path
      apply ((bodies arrived).weaken fewer).bind
      intro ended last ends
      rcases ended with ⟨exit, state⟩
      cases exit with
      | broke =>
        obtain ⟨_, ⟨⟩, arrived⟩ := ends
        exact .done ⟨rfl, arrived⟩
      | returned value => exact .done ends
      | next =>
        exact ((updates ends.2).weaken fewer).bind fun state last atHead => ih fewer atHead
      | continued =>
        obtain ⟨_, ⟨⟩, arrived⟩ := ends
        exact ((updates arrived).weaken fewer).bind fun state last atHead => ih fewer atHead

/-- Whether code does what an evaluation tells, wherever it stands in the call. -/
def Does (image : Image) (rules : Rules) (globals : List String) (activation : Activation)
    (targets : Option Targets) (code : Code) (falls : Bool)
    (evaluate : State Nat → Except Stop (Exit × State Nat)) : Prop :=
  ∀ ⦃ways : Option Ways⦄ ⦃rest : Code⦄ ⦃state : State Nat⦄ ⦃start : Tracked⦄,
    Leads activation targets ways → code ++ rest <:+ activation.code →
    Matches activation globals (code ++ rest) state start →
    Simulates image rules rules.rounds start (EndsAt activation globals ways falls rest)
      (evaluate state)

/-- Whether code does what an evaluation tells, and goes on at a block behind both arms of an `if`. -/
def DoesBefore (image : Image) (rules : Rules) (globals : List String) (activation : Activation)
    (targets : Option Targets) (merge : BlockId) (code : Code) (reached : Bool)
    (evaluate : State Nat → Except Stop (Exit × State Nat)) : Prop :=
  ∀ ⦃ways : Option Ways⦄ ⦃behind rest : Code⦄ ⦃state : State Nat⦄ ⦃start : Tracked⦄,
    Leads activation targets ways → Lands activation merge behind →
    code ++ rest <:+ activation.code →
    Matches activation globals (code ++ rest) state start →
    Simulates image rules rules.rounds start
      (EndsAt activation globals ways reached behind) (evaluate state)

private theorem suffix_of_append {first second code : Code} (placed : first ++ second <:+ code) :
    second <:+ code :=
  (List.suffix_append first second).trans placed

private theorem suffix_of_cons {piece : Piece} {rest code : Code} (placed : piece :: rest <:+ code) :
    rest <:+ code :=
  (List.suffix_cons piece rest).trans placed

theorem lands {k : Nat} {hint : String} (positive : 0 < k)
    (placed : .label ⟨k⟩ hint :: rest <:+ activation.code) : Lands activation ⟨k⟩ rest := by
  refine ⟨fun same => ?_, hint, placed⟩
  have zero : k = 0 := congrArg BlockId.index same
  omega

theorem EndsAt.mono {ways : Option Ways} {behind behind' : Code} {falls falls' : Bool}
    {ended : Exit × State Nat}
    (ends : EndsAt activation globals ways falls behind ended start)
    (implies : falls = true → falls' = true ∧ behind = behind') :
    EndsAt activation globals ways falls' behind' ended start := by
  obtain ⟨exit, state⟩ := ended
  cases exit with
  | next =>
    obtain ⟨falls', rfl⟩ := implies ends.1
    exact ⟨falls', ends.2⟩
  | broke | continued | returned => exact ends

theorem computed_simulates (rig : Simulating image rules symbols activation calls)
    (le : count ≤ activation.slots.length) {n n' : Nat} {value : Scoped.Expr} {code : List Instr}
    {result : Lower.Result} (computed : ExprCode activation.slots n value code result n')
    (settled : value.InScope symbols count)
    (placed : Code.ofInstrs code ++ rest <:+ activation.code)
    (matching : Matches activation symbols.globals (Code.ofInstrs code ++ rest) state start) :
    Simulates image rules rules.rounds start
      (fun (_, state) last => Matches activation symbols.globals rest state last)
      (value.evaluateIn rules calls activation.routine.function.name state) := by
  have apart := apart_of_suffix rig.laid placed
  apply (expr_simulates rig le computed settled apart matching).bind
  intro result last done
  rcases result with ⟨value, world⟩
  rcases done with ⟨computed, _⟩
  exact .done computed.matching

/-- The code of a `while` does what it does if the code of its body does what the body does. -/
theorem while_does (rig : Simulating image rules symbols activation calls)
    (le : count ≤ activation.slots.length) {targets : Option Targets} {n m k : Nat}
    {condition : Scoped.Expr} {body : List Scoped.Stmt} {code : List Instr} {operand : Operand}
    {inner : Code} {falls : Bool} (positive : 0 < k)
    (test : TestCode activation.slots n condition code operand m)
    (settled : condition.InScope symbols count)
    (does : Does image rules symbols.globals activation (some ⟨⟨k + 2⟩, ⟨k⟩⟩) inner falls
      (Scoped.Stmt.evaluateAll rules calls activation.routine.function.name body)) :
    Does image rules symbols.globals activation targets
      (.exit (.jump ⟨k⟩) :: .label ⟨k⟩ "while.cond" :: (Code.ofInstrs code ++
        .exit (.branch operand ⟨k + 1⟩ ⟨k + 2⟩) :: .label ⟨k + 1⟩ "while.body" :: (inner ++
          (joined falls ⟨k⟩ ++ [.label ⟨k + 2⟩ "while.end"])))) true
      ((Scoped.Stmt.while condition body).evaluate rules calls activation.routine.function.name) := by
  intro ways rest state start _ placed matching
  simp only [List.cons_append, List.append_assoc, List.nil_append] at placed matching
  have headPlaced := suffix_of_cons placed
  have testPlaced := suffix_of_cons headPlaced
  have bodyPlaced := suffix_of_cons (suffix_of_append testPlaced)
  have innerPlaced := suffix_of_cons bodyPlaced
  have head := lands positive headPlaced
  have inside := lands (Nat.lt_succ_of_lt positive) bodyPlaced
  have behind := lands (by omega) (suffix_of_append (suffix_of_append innerPlaced))
  have bodies := fun {state start} (atBody : Matches _ _ _ state start) =>
    (does (show Leads activation (some _) (some ⟨rest, _⟩) from ⟨behind, head⟩) innerPlaced
      atBody).onward fun _ _ ends => ends_joined rig.laid head ends
  obtain ⟨next, path, atHead⟩ := matching.jump rig.laid head
  exact .along path (loop_simulates rig.laid inside behind
    (test_simulates rig le test settled testPlaced) bodies .done (Nat.le_refl _) atHead)

theorem for_does (rig : Simulating image rules symbols activation calls) {inLoop : Bool}
    {targets : Option Targets} {n n₁ n₂ n₃ n' k slot : Nat} {init condition update : Scoped.Expr}
    {var : Scoped.Var} {body : List Scoped.Stmt} {first next : Code} {code : List Instr}
    {operand : Operand} {inner : Code} {falls : Bool} (positive : 0 < k)
    (declared : DeclareCode activation.slots n slot init first n₁)
    (test : TestCode activation.slots n₁ condition code operand n₂)
    (updated : AssignCode activation.slots n₃ var update next n')
    (settled : (Scoped.Stmt.for slot init condition var update body).InScope symbols inLoop count)
    (enough : count + 1 + Scoped.Stmt.declaresAll body ≤ activation.slots.length)
    (does : Does image rules symbols.globals activation (some ⟨⟨k + 3⟩, ⟨k + 2⟩⟩) inner falls
      (Scoped.Stmt.evaluateAll rules calls activation.routine.function.name body)) :
    Does image rules symbols.globals activation targets
      (first ++ .exit (.jump ⟨k⟩) :: .label ⟨k⟩ "for.cond" :: (Code.ofInstrs code ++
        .exit (.branch operand ⟨k + 1⟩ ⟨k + 3⟩) :: .label ⟨k + 1⟩ "for.body" :: (inner ++
          (joined falls ⟨k + 2⟩ ++ .label ⟨k + 2⟩ "for.iter" :: (next ++
            [.exit (.jump ⟨k⟩), .label ⟨k + 3⟩ "for.end"]))))) true
      ((Scoped.Stmt.for slot init condition var update body).evaluate rules calls
        activation.routine.function.name) := by
  intro ways rest state start _ placed matching
  simp only [List.cons_append, List.append_assoc, List.nil_append] at placed matching
  have le : count + 1 ≤ activation.slots.length := Nat.le_of_add_right_le enough
  have headPlaced := suffix_of_cons (suffix_of_append placed)
  have testPlaced := suffix_of_cons headPlaced
  have bodyPlaced := suffix_of_cons (suffix_of_append testPlaced)
  have innerPlaced := suffix_of_cons bodyPlaced
  have againPlaced := suffix_of_append (suffix_of_append innerPlaced)
  have nextPlaced := suffix_of_cons againPlaced
  have head := lands positive headPlaced
  have inside := lands (Nat.lt_succ_of_lt positive) bodyPlaced
  have again := lands (by omega) againPlaced
  have behind := lands (by omega) (suffix_of_cons (suffix_of_append nextPlaced))
  have bodies := fun {state start} (atBody : Matches _ _ _ state start) =>
    (does (show Leads activation (some _) (some ⟨rest, _⟩) from ⟨behind, again⟩) innerPlaced
      atBody).onward fun _ _ ends => ends_joined rig.laid again ends
  have updates := fun {state start} (atNext : Matches _ _ _ state start) =>
    (assign_simulates rig enough updated settled.2.2.2.2.1 settled.2.2.2.2.2 nextPlaced
      atNext).onward fun _ _ atJump =>
        let ⟨next, path, atHead⟩ := atJump.jump rig.laid head
        ⟨1, next, path, atHead⟩
  apply (declare_simulates rig (Nat.le_of_succ_le le) declared settled.2.1 placed matching).bind
  intro state last atJump
  obtain ⟨next, path, atHead⟩ := atJump.jump rig.laid head
  exact .along path (loop_simulates rig.laid inside behind
    (test_simulates rig le test settled.2.2.1 testPlaced) bodies updates (Nat.le_refl _) atHead)

mutual

/-- The code of a statement does what the statement does. -/
theorem stmt_does (rig : Simulating image rules symbols activation calls) :
    ∀ {targets : Option Targets} {n n' k k' : Nat} {stmt : Scoped.Stmt} {code : Code} {falls : Bool},
    StmtCode activation.slots targets n k stmt code falls n' k' → 0 < k →
      ∀ {inLoop : Bool} {count : Nat}, stmt.InScope symbols inLoop count →
      count + stmt.declares ≤ activation.slots.length →
      Does image rules symbols.globals activation targets code falls
        (stmt.evaluate rules calls activation.routine.function.name)
  | _, _, _, _, _, _, _, _, .declare declared, _, _, _, settled, enough => by
    intro ways rest state start _ placed matching
    have le := Nat.le_of_add_right_le enough
    apply (declare_simulates rig le declared settled.2 placed matching).bind
    intro state last arrived
    exact .done ⟨rfl, arrived⟩
  | _, _, _, _, _, _, _, _, .assign assigned, _, _, _, settled, enough => by
    intro ways rest state start _ placed matching
    have le := Nat.le_of_add_right_le enough
    apply (assign_simulates rig le assigned settled.1 settled.2 placed matching).bind
    intro state last arrived
    exact .done ⟨rfl, arrived⟩
  | _, _, _, _, _, _, _, _, .return word, _, _, _, settled, enough => by
    intro ways rest state start _ placed matching
    have le := Nat.le_of_add_right_le enough
    rw [List.append_assoc] at placed matching
    apply (value_simulates rig le word settled placed matching).bind
    intro result last done
    rcases result with ⟨value, state⟩
    rcases done with ⟨arrived, found⟩
    exact .done ⟨_, _, arrived, found⟩
  | _, _, _, _, _, _, _, _, .expr computed, _, _, _, settled, enough => by
    intro ways rest state start _ placed matching
    have le := Nat.le_of_add_right_le enough
    apply (computed_simulates rig le computed settled placed matching).bind
    intro result last arrived
    rcases result with ⟨value, state⟩
    exact .done ⟨rfl, arrived⟩
  | _, _, _, _, _, _, _, reached, .if both, positive, _, _, settled, enough => by
    intro ways rest state start leads placed matching
    rw [List.append_assoc, List.cons_append] at placed matching
    have behind := lands positive (suffix_of_append placed)
    refine (arms_does rig both (Nat.lt_succ_of_lt positive) settled.1 settled.2.1 settled.2.2 enough
      leads behind placed matching).mono fun ended last ends => ends.mono ?_
    rintro rfl
    exact ⟨rfl, rfl⟩
  | _, _, _, _, _, _, _, _, .while test repeated, positive, _, _, settled, enough =>
    while_does rig (Nat.le_of_add_right_le enough) positive test settled.1
      (stmts_does rig repeated rfl (Nat.succ_pos _) settled.2 enough)
  | _, _, _, _, _, _, _, _, .for declared test repeated updated, positive, _, _, settled, enough => by
    rw [Scoped.Stmt.declares, ← Nat.add_assoc] at enough
    exact for_does rig positive declared test updated settled enough
      (stmts_does rig repeated rfl (Nat.succ_pos _) settled.2.2.2.1 enough)
  | _, _, _, _, _, _, _, _, .break, _, _, _, _, _ => by
    intro ways rest state start leads _ matching
    cases ways with
    | none => cases leads
    | some way =>
      obtain ⟨last, path, arrived⟩ := matching.jump rig.laid leads.1
      exact ⟨1, last, path, way, rfl, arrived⟩
  | _, _, _, _, _, _, _, _, .continue, _, _, _, _, _ => by
    intro ways rest state start leads _ matching
    cases ways with
    | none => cases leads
    | some way =>
      obtain ⟨last, path, arrived⟩ := matching.jump rig.laid leads.2
      exact ⟨1, last, path, way, rfl, arrived⟩

theorem arms_does (rig : Simulating image rules symbols activation calls) :
    ∀ {targets : Option Targets} {merge : BlockId} {n n' k k' : Nat} {condition : Scoped.Expr}
      {body : List Scoped.Stmt} {tail : Scoped.Tail} {code : Code} {reached : Bool},
    ArmsCode activation.slots targets merge n k condition body tail code reached n' k' → 0 < k →
      ∀ {inLoop : Bool} {count : Nat}, condition.InScope symbols count →
      Scoped.Stmt.AllInScope symbols inLoop count body →
      tail.InScope symbols inLoop (count + Scoped.Stmt.declaresAll body) →
      count + (Scoped.Stmt.declaresAll body + tail.declares) ≤ activation.slots.length →
      DoesBefore image rules symbols.globals activation targets merge code reached fun state => do
        let (value, state) ←
          condition.evaluateIn rules calls activation.routine.function.name state
        if value = 0 then
          tail.evaluate rules calls activation.routine.function.name state
        else
          Scoped.Stmt.evaluateAll rules calls activation.routine.function.name body state
  | _, _, _, _, _, _, _, _, _, _, _, .mk test first second, positive, _, _, conditionSettled,
      bodySettled, tailSettled, enough => by
    intro ways behind rest state start leads merge placed matching
    simp only [List.cons_append, List.append_assoc] at placed matching
    have yesPlaced := suffix_of_cons (suffix_of_append placed)
    have bodyPlaced := suffix_of_cons yesPlaced
    have noPlaced := suffix_of_append (suffix_of_append bodyPlaced)
    have yes := lands positive yesPlaced
    have no := lands (Nat.lt_succ_of_lt positive) noPlaced
    have later := first.labels.le
    apply (test_simulates rig (Nat.le_of_add_right_le enough) test conditionSettled placed
      matching).bind
    intro result middle done
    rcases result with ⟨value, state⟩
    rcases done with ⟨atBranch, tested⟩
    obtain ⟨next, path, arrived⟩ := atBranch.branch rig.laid tested yes no
    apply Simulates.along path
    by_cases zero : value = 0
    · simp only [zero, if_true, ne_eq, not_true_eq_false, decide_false, Bool.false_eq_true, if_false]
        at arrived ⊢
      refine (tail_does rig second (by omega) tailSettled (by omega) leads merge
        (suffix_of_cons noPlaced) arrived).mono fun _ _ ends => ends.mono fun reached => ?_
      exact ⟨by rw [reached, Bool.or_true], rfl⟩
    · simp only [zero, if_false, ne_eq, not_false_eq_true, decide_true, if_true] at arrived ⊢
      refine (stmts_does rig first rfl (by omega) bodySettled (by omega) leads bodyPlaced
        arrived).onward fun _ last ends => ?_
      obtain ⟨steps, further, path, there⟩ := ends_joined rig.laid merge ends
      refine ⟨steps, further, path, there.mono fun falls => ?_⟩
      exact ⟨by rw [falls, Bool.true_or], rfl⟩

theorem tail_does (rig : Simulating image rules symbols activation calls) :
    ∀ {targets : Option Targets} {merge : BlockId} {n n' k k' : Nat} {tail : Scoped.Tail}
      {code : Code} {reached : Bool},
    TailCode activation.slots targets merge n k tail code reached n' k' → 0 < k →
      ∀ {inLoop : Bool} {count : Nat}, tail.InScope symbols inLoop count →
      count + tail.declares ≤ activation.slots.length →
      DoesBefore image rules symbols.globals activation targets merge code reached
        (tail.evaluate rules calls activation.routine.function.name)
  | _, _, _, _, _, _, _, _, _, .none, _, _, _, _, _ => by
    intro ways behind rest state start _ merge _ matching
    obtain ⟨last, path, arrived⟩ := matching.jump rig.laid merge
    exact ⟨1, last, path, rfl, arrived⟩
  | _, _, _, _, _, _, _, _, _, .elseIf both, positive, _, _, settled, enough =>
    arms_does rig both positive settled.1 settled.2.1 settled.2.2 enough
  | _, _, _, _, _, _, _, _, _, .else inner, positive, _, _, settled, enough => by
    intro ways behind rest state start leads merge placed matching
    rw [List.append_assoc] at placed matching
    exact (stmts_does rig inner rfl positive settled enough leads placed matching).onward
      fun _ _ ends => ends_joined rig.laid merge ends

theorem stmts_does (rig : Simulating image rules symbols activation calls) :
    ∀ {targets : Option Targets} {n n' k k' : Nat} {stmts : List Scoped.Stmt} {code : Code}
      {falls falls' : Bool},
    StmtsCode activation.slots targets n k falls stmts code falls' n' k' → falls = true → 0 < k →
      ∀ {inLoop : Bool} {count : Nat}, Scoped.Stmt.AllInScope symbols inLoop count stmts →
      count + Scoped.Stmt.declaresAll stmts ≤ activation.slots.length →
      Does image rules symbols.globals activation targets code falls'
        (Scoped.Stmt.evaluateAll rules calls activation.routine.function.name stmts)
  | _, _, _, _, _, _, _, _, _, .nil, same, _, _, _, _, _ => by
    intro ways rest state start _ _ matching
    exact .done ⟨same, matching⟩
  | _, _, _, _, _, _, _, _, _, .cons first others, _, positive, _, _, settled, enough => by
    intro ways rest state start leads placed matching
    rw [List.append_assoc] at placed matching
    have total : _ + (_ + _) ≤ activation.slots.length := enough
    have later := first.labels.le
    apply (stmt_does rig first positive settled.1 (by omega) leads placed matching).bind
    intro ended middle ends
    rcases ended with ⟨exit, state⟩
    cases exit with
    | next =>
      exact stmts_does rig others ends.1 (by omega) settled.2 (by omega) leads
        (suffix_of_append placed) ends.2
    | broke | continued | returned => exact .done ends
  | _, _, _, _, _, _, _, _, _, .dead _ _, same, _, _, _, _, _ => by
    cases same

end

end OliCompiler.Machine
