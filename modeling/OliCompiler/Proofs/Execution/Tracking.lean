import OliCompiler.Machine

/-!
Runs that keep track of the stack slots with a stored value. A slot has none when it is made and gets
one with the first store to it, so a run can tell which loads read a slot that nothing was stored to.
-/

namespace OliCompiler.Machine

open Ir

/-- A configuration and the slots of its stack that have a stored value. -/
structure Tracked where
  config : Config
  stored : Nat → Bool

namespace Tracked

/-- The slots with a stored value behind the next instruction. -/
def mark (tracked : Tracked) : Nat → Bool :=
  match tracked.config.frame.todo with
  | ⟨_, .slot _⟩ :: _ =>
    fun slot => if slot = tracked.config.store.stack.size then false else tracked.stored slot
  | ⟨_, .store address _⟩ :: _ =>
    match tracked.config.frame.ptr address with
    | .ok (.stack index) => fun slot => if slot = index then true else tracked.stored slot
    | _ => tracked.stored
  | _ => tracked.stored

/-- Whether the next instruction loads from a stack slot without a stored value. -/
def readsUnset (tracked : Tracked) : Bool :=
  match tracked.config.frame.todo with
  | ⟨_, .load address⟩ :: _ =>
    match tracked.config.frame.ptr address with
    | .ok (.stack index) => !tracked.stored index
    | _ => false
  | _ => false

/-- Whether one of so many steps is a load from a stack slot without a stored value. -/
def readsUnsetWithin (image : Image) (maxDepth : Nat) : Nat → Tracked → Bool
  | 0, _ => false
  | steps + 1, tracked =>
    tracked.readsUnset ||
      match tracked.config.step image maxDepth with
      | .ok (.running config) => readsUnsetWithin image maxDepth steps ⟨config, tracked.mark⟩
      | _ => false

end Tracked

/-- Whether a run of a module executes a load from a stack slot that nothing was stored to since it
was made. -/
def readsUnset (module : Module) (limits : Limits) : Bool :=
  let image := Image.ofModule module
  match enter image limits.depth (.initial module) 0 entryName [] with
  | .ok (.opened frame, store) =>
    Tracked.readsUnsetWithin image limits.depth limits.steps ⟨⟨frame, [], store⟩, fun _ => false⟩
  | _ => false

/-- So many steps lead from one configuration to another; in strict paths none of them is a load from
a slot without a stored value. -/
inductive Path (image : Image) (maxDepth : Nat) (strict : Bool) : Nat → Tracked → Tracked → Prop where
  | refl {start : Tracked} : Path image maxDepth strict 0 start start
  | step {steps : Nat} {start last : Tracked} {next : Config}
    (stepped : start.config.step image maxDepth = .ok (.running next))
    (read : strict = true → start.readsUnset = false)
    (rest : Path image maxDepth strict steps ⟨next, start.mark⟩ last) :
    Path image maxDepth strict (steps + 1) start last

variable {image : Image} {maxDepth steps more : Nat} {strict : Bool} {start middle last : Tracked}

section

variable {result : Option Reg} {op : Op} {todo : List Instr}

/-- Whether an operation leaves the stack alone in the call in progress. -/
def Plain : Op → Prop
  | .slot _ | .load _ | .store _ _ => False
  | .arith _ _ _ | .compare _ _ _ | .widen _ _ | .call _ _ => True

theorem Tracked.mark_plain (next : start.config.frame.todo = ⟨result, op⟩ :: todo)
    (plain : Plain op) : start.mark = start.stored := by
  cases op with
  | slot | load | store => cases plain
  | arith | compare | widen | call => simp [Tracked.mark, next]

theorem Tracked.readsUnset_plain (next : start.config.frame.todo = ⟨result, op⟩ :: todo)
    (plain : Plain op) : start.readsUnset = false := by
  cases op with
  | slot | load | store => cases plain
  | arith | compare | widen | call => simp [Tracked.readsUnset, next]

theorem Tracked.mark_nil (next : start.config.frame.todo = []) : start.mark = start.stored := by
  simp [Tracked.mark, next]

theorem Tracked.readsUnset_nil (next : start.config.frame.todo = []) : start.readsUnset = false := by
  simp [Tracked.readsUnset, next]

end

namespace Path

theorem one {next : Config} (stepped : start.config.step image maxDepth = .ok (.running next))
    (read : strict = true → start.readsUnset = false) :
    Path image maxDepth strict 1 start ⟨next, start.mark⟩ :=
  .step stepped read .refl

theorem trans (first : Path image maxDepth strict steps start middle)
    (second : Path image maxDepth strict more middle last) :
    Path image maxDepth strict (steps + more) start last := by
  induction first with
  | refl => simpa using second
  | @step steps _ _ _ stepped read _ ih =>
    rw [Nat.add_right_comm]
    exact .step stepped read (ih second)

/-- A run goes along a path. -/
theorem runFrom_eq {limits : Limits} (path : Path image limits.depth strict steps start last)
    (rest : Nat) :
    runFrom image limits (steps + rest) start.config = runFrom image limits rest last.config := by
  induction path with
  | refl => rw [Nat.zero_add]
  | @step steps _ _ _ stepped _ _ ih =>
    rw [Nat.add_right_comm, runFrom, stepped]
    exact ih

theorem runFrom_limit {limits : Limits} (path : Path image limits.depth strict steps start last)
    {fewer : Nat} (le : fewer ≤ steps) :
    runFrom image limits fewer start.config = .error (.stepLimit limits.steps) := by
  induction path generalizing fewer with
  | refl =>
    obtain rfl := Nat.le_zero.mp le
    rfl
  | step stepped _ _ ih =>
    cases fewer with
    | zero => rfl
    | succ fewer =>
      rw [runFrom, stepped]
      exact ih (Nat.le_of_succ_le_succ le)

theorem readsUnsetWithin_eq (path : Path image maxDepth true steps start last) (rest : Nat) :
    Tracked.readsUnsetWithin image maxDepth (steps + rest) start =
      Tracked.readsUnsetWithin image maxDepth rest last := by
  generalize strictly : true = strict at path
  induction path with
  | refl => rw [Nat.zero_add]
  | @step steps _ _ _ stepped read _ ih =>
    rw [Nat.add_right_comm, Tracked.readsUnsetWithin, read strictly.symm, stepped]
    exact ih

theorem readsUnsetWithin_eq_false (path : Path image maxDepth true steps start last) {fewer : Nat}
    (le : fewer ≤ steps) : Tracked.readsUnsetWithin image maxDepth fewer start = false := by
  generalize strictly : true = strict at path
  induction path generalizing fewer with
  | refl =>
    obtain rfl := Nat.le_zero.mp le
    rfl
  | step stepped read _ ih =>
    cases fewer with
    | zero => rfl
    | succ fewer =>
      rw [Tracked.readsUnsetWithin, read strictly.symm, stepped]
      exact ih (Nat.le_of_succ_le_succ le)

end Path

end OliCompiler.Machine
