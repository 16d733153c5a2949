import OliCompiler.Proofs.Evaluation.Basic
import OliCompiler.Proofs.Execution.Tracking

/-!
What it means that a run does what an evaluation tells: it gets to where the value is, to the step that
has the fault, or to the load of the unset local. An evaluation that is short of rounds only tells that
the run is long.
-/

namespace OliCompiler.Machine

open Evaluation

variable {α β : Type} {image : Image} {rules : Rules}

/-- Whether the run from a configuration does what an evaluation tells, and has `post` where the value
is. Evaluations short of rounds stand for runs of `bound` steps and more. -/
def Simulates (image : Image) (rules : Rules) (bound : Nat) (start : Tracked)
    (post : α → Tracked → Prop) : Except Stop α → Prop
  | .ok value => ∃ steps last, Path image rules.maxDepth rules.strict steps start last ∧
      post value last
  | .error (.fault fault) => ∃ steps last, Path image rules.maxDepth rules.strict steps start last ∧
      (rules.strict = true → last.readsUnset = false) ∧
      last.config.step image rules.maxDepth = .error fault
  | .error .unset => rules.strict = true ∧
      ∃ steps last, Path image rules.maxDepth rules.strict steps start last ∧ last.readsUnset = true
  | .error .rounds => ∃ steps last, bound ≤ steps ∧
      Path image rules.maxDepth rules.strict steps start last

namespace Simulates

variable {bound fewer steps : Nat} {start middle : Tracked} {post : α → Tracked → Prop}
  {post' : β → Tracked → Prop} {result : Except Stop α}

theorem done {value : α} (here : post value start) :
    Simulates image rules bound start post (.ok value) :=
  ⟨0, start, .refl, here⟩

theorem weaken (simulates : Simulates image rules bound start post result) (le : fewer ≤ bound) :
    Simulates image rules fewer start post result := by
  match result, simulates with
  | .ok _, simulates | .error (.fault _), simulates | .error .unset, simulates => exact simulates
  | .error .rounds, ⟨steps, last, long, path⟩ => exact ⟨steps, last, Nat.le_trans le long, path⟩

theorem after (path : Path image rules.maxDepth rules.strict steps start middle)
    (simulates : Simulates image rules bound middle post result) :
    Simulates image rules (steps + bound) start post result := by
  match result, simulates with
  | .ok _, ⟨_, last, rest, here⟩ => exact ⟨_, last, path.trans rest, here⟩
  | .error (.fault _), ⟨_, last, rest, faulty⟩ => exact ⟨_, last, path.trans rest, faulty⟩
  | .error .unset, ⟨strict, _, last, rest, reads⟩ => exact ⟨strict, _, last, path.trans rest, reads⟩
  | .error .rounds, ⟨_, last, long, rest⟩ =>
    exact ⟨_, last, Nat.add_le_add_left long steps, path.trans rest⟩

theorem along (path : Path image rules.maxDepth rules.strict steps start middle)
    (simulates : Simulates image rules bound middle post result) :
    Simulates image rules bound start post result :=
  weaken (after path simulates) (Nat.le_add_left bound steps)

theorem through {here : Tracked → Prop}
    (goes : ∃ steps middle, Path image rules.maxDepth rules.strict steps start middle ∧ here middle)
    (rest : ∀ middle, here middle → Simulates image rules bound middle post result) :
    Simulates image rules bound start post result := by
  obtain ⟨steps, middle, path, arrived⟩ := goes
  exact along path (rest middle arrived)

theorem fault {faulty : Fault} (stepped : start.config.step image rules.maxDepth = .error faulty)
    (read : rules.strict = true → start.readsUnset = false) :
    Simulates image rules bound start post (.error (.fault faulty)) :=
  ⟨0, start, .refl, read, stepped⟩

theorem bind {next : α → Except Stop β} (simulates : Simulates image rules bound start post result)
    (rest : ∀ value last, post value last → Simulates image rules bound last post' (next value)) :
    Simulates image rules bound start post' (result >>= next) := by
  match result, simulates with
  | .ok value, ⟨steps, last, path, here⟩ =>
    exact along path (rest value last here)
  | .error (.fault _), simulates => exact simulates
  | .error .unset, simulates => exact simulates
  | .error .rounds, simulates => exact simulates

/-- Where the value is, the run may go on to something further. -/
theorem onward {post' : α → Tracked → Prop}
    (simulates : Simulates image rules bound start post result)
    (goes : ∀ value last, post value last → ∃ steps further,
      Path image rules.maxDepth rules.strict steps last further ∧ post' value further) :
    Simulates image rules bound start post' result := by
  match result, simulates with
  | .ok value, ⟨_, last, path, here⟩ =>
    obtain ⟨_, further, rest, there⟩ := goes value last here
    exact ⟨_, further, path.trans rest, there⟩
  | .error (.fault _), simulates => exact simulates
  | .error .unset, simulates => exact simulates
  | .error .rounds, simulates => exact simulates

theorem mono {post' : α → Tracked → Prop} (simulates : Simulates image rules bound start post result)
    (implies : ∀ value last, post value last → post' value last) :
    Simulates image rules bound start post' result := by
  match result, simulates with
  | .ok _, ⟨steps, last, path, here⟩ => exact ⟨steps, last, path, implies _ _ here⟩
  | .error (.fault _), simulates => exact simulates
  | .error .unset, simulates => exact simulates
  | .error .rounds, simulates => exact simulates

end Simulates

end OliCompiler.Machine
