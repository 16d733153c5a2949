import OliCompiler.Proofs.Execution.Program
import OliCompiler.Proofs.Scope.Agreement

/-!
Lowering is correct: runs of the module of an accepted program have the outcomes of the direct
evaluation of its syntax tree, in both directions.
-/

namespace OliCompiler

open Evaluation

variable {program : Program} {module : Ir.Module}

/-- The outcome of a run that did not lack steps is told by the evaluation with as many rounds. -/
theorem evaluate_of_run (lowered : lower program = .ok module) {steps depth : Nat}
    {outcome : Except Machine.Fault Machine.Execution}
    (ran : Machine.run module ⟨steps, depth⟩ = outcome)
    (finite : outcome ≠ .error (.stepLimit steps)) :
    program.evaluate { maxDepth := depth, rounds := steps } = outcome.mapError .fault := by
  obtain ⟨main, settled, _, resolved, wellScoped, shape⟩ := Lower.lower_eq_ok lowered
  have told : ∀ result : Except Machine.Fault Machine.Execution,
      settled.evaluate ⟨depth, steps, false⟩ = result.mapError .fault → result = outcome := by
    intro result evaluated
    obtain ⟨enough, runs⟩ := Machine.run_of_outcome wellScoped shape evaluated
    have here : Machine.run module ⟨steps, depth⟩ = _ := runs steps
    rw [ran] at here
    by_cases short : steps < enough
    · rw [if_pos short] at here
      exact absurd here finite
    · rw [if_neg short] at here
      exact here.symm
  rw [resolve_evaluate resolved]
  cases evaluated : settled.evaluate ⟨depth, steps, false⟩ with
  | ok execution =>
    rw [← told (.ok execution) evaluated]
    rfl
  | error stop =>
    cases stop with
    | fault fault =>
      rw [← told (.error fault) evaluated]
      rfl
    | unset => cases (Machine.readsUnset_of_unset wellScoped shape evaluated).1
    | rounds =>
      have short : Machine.run module ⟨steps, depth⟩ = _ :=
        Machine.run_of_rounds wellScoped shape evaluated (Nat.le_refl steps)
      exact absurd (ran.symm.trans short) finite

/-- The outcome of an evaluation is that of a run with enough steps. -/
theorem run_of_evaluate (lowered : lower program = .ok module) {rounds depth : Nat}
    {outcome : Except Machine.Fault Machine.Execution}
    (evaluated : program.evaluate { maxDepth := depth, rounds } = outcome.mapError .fault) :
    ∃ steps, Machine.run module ⟨steps, depth⟩ = outcome := by
  obtain ⟨main, settled, _, resolved, wellScoped, shape⟩ := Lower.lower_eq_ok lowered
  rw [resolve_evaluate resolved] at evaluated
  obtain ⟨enough, runs⟩ := Machine.run_of_outcome wellScoped shape evaluated
  have here : Machine.run module ⟨enough, depth⟩ = _ := runs enough
  rw [if_neg (Nat.lt_irrefl enough)] at here
  exact ⟨enough, here⟩

/-- A module gives an outcome, other than that it lacks steps, for some number of steps exactly if the
direct evaluation of the program gives it for some number of rounds. -/
theorem lower_correct (lowered : lower program = .ok module) (depth : Nat)
    {outcome : Except Machine.Fault Machine.Execution}
    (finite : ∀ limit, outcome ≠ .error (.stepLimit limit)) :
    (∃ steps, Machine.run module ⟨steps, depth⟩ = outcome) ↔
      ∃ rounds,
        program.evaluate { maxDepth := depth, rounds } = outcome.mapError .fault := by
  constructor
  · intro runs
    rcases runs with ⟨steps, ran⟩
    exact ⟨steps, evaluate_of_run lowered ran (finite steps)⟩
  · intro evaluates
    rcases evaluates with ⟨rounds, evaluated⟩
    exact run_of_evaluate lowered evaluated

section

private def ident (name : String) : Ident := ⟨name, default⟩

/-- A program that counts down by calls of a function, and up in a loop before. -/
def countdown : Program where
  functions := [{
    name := ident "down"
    params := [ident "n"]
    body := [
      .if (.binary (.compare .eq) (.var (ident "n")) (.int 0 default))
        [.return (.int 0 default)] .none,
      .expr (.call (ident "print") [.var (ident "n")] default),
      .return (.call (ident "down")
        [.binary (.arith .sub) (.var (ident "n")) (.int 1 default)] default)]
    span := default }]
  globals := []
  main := some {
    name := ident "main"
    params := []
    body := [
      .declare ⟨ident "i", .int 0 default⟩,
      .while (.binary (.compare .lt) (.var (ident "i")) (.int 3 default))
        [.assign ⟨ident "i", .binary (.arith .add) (.var (ident "i")) (.int 1 default)⟩],
      .return (.call (ident "down") [.var (ident "i")] default)]
    span := default }

theorem eq_ok_of_isOk {ε α : Type} {result : Except ε α} (accepted : result.isOk = true) :
    ∃ value, result = .ok value := by
  cases result with
  | ok value => exact ⟨value, rfl⟩
  | error fault => cases accepted

theorem countdown_lowers : ∃ module, lower countdown = .ok module :=
  eq_ok_of_isOk (by decide +kernel)

theorem lower_correct_countdown : ∃ module, lower countdown = .ok module ∧
    ∃ steps, Machine.run module ⟨steps, 10⟩ = .ok ⟨0, "3\n2\n1\n"⟩ := by
  obtain ⟨module, lowered⟩ := countdown_lowers
  refine ⟨module, lowered, (lower_correct lowered 10 (by simp)).mpr ⟨4, ?_⟩⟩
  decide +kernel

end

end OliCompiler
