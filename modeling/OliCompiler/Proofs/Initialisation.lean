import OliCompiler.Proofs.Correctness

/-!
Loads of stack slots that nothing was stored to. Such a load is a read of a local whose declaration was
passed by, and a strict evaluation of the syntax tree tells exactly when a run comes to one.
-/

namespace OliCompiler

open Evaluation

variable {program : Program} {module : Ir.Module}

/-- A run that loads from an unset slot tells that the strict evaluation with as many rounds stops at an
unset local. -/
theorem evaluate_of_readsUnset (lowered : lower program = .ok module) {steps depth : Nat}
    (reads : Machine.readsUnset module ⟨steps, depth⟩ = true) :
    program.evaluate { maxDepth := depth, rounds := steps, strict := true } = .error .unset := by
  obtain ⟨main, settled, _, resolved, wellScoped, shape⟩ := Lower.lower_eq_ok lowered
  have told : ∀ result : Except Machine.Fault Machine.Execution,
      settled.evaluate ⟨depth, steps, true⟩ ≠ result.mapError .fault := by
    intro result evaluated
    have still : Machine.readsUnset module ⟨steps, depth⟩ = false :=
      Machine.readsUnset_of_outcome wellScoped shape rfl evaluated steps
    exact Bool.false_ne_true (still.symm.trans reads)
  rw [resolve_evaluate resolved]
  cases evaluated : settled.evaluate ⟨depth, steps, true⟩ with
  | ok execution => exact absurd evaluated (told (.ok execution))
  | error stop =>
    cases stop with
    | fault fault => exact absurd evaluated (told (.error fault))
    | unset => rfl
    | rounds =>
      have still : Machine.readsUnset module ⟨steps, depth⟩ = false :=
        Machine.readsUnset_of_rounds wellScoped shape rfl evaluated (Nat.le_refl steps)
      exact absurd (still.symm.trans reads) Bool.false_ne_true

theorem readsUnset_of_evaluate (lowered : lower program = .ok module) {rounds depth : Nat}
    (evaluated : program.evaluate { maxDepth := depth, rounds, strict := true } = .error .unset) :
    ∃ steps, Machine.readsUnset module ⟨steps, depth⟩ = true := by
  obtain ⟨main, settled, _, resolved, wellScoped, shape⟩ := Lower.lower_eq_ok lowered
  rw [resolve_evaluate resolved] at evaluated
  exact (Machine.readsUnset_of_unset wellScoped shape evaluated).2

/-- Some run of a module loads from a slot that nothing was stored to exactly if the evaluation of the
program reads a local that neither its declaration nor an assignment has reached. -/
theorem readsUnset_iff (lowered : lower program = .ok module) (depth : Nat) :
    (∃ steps, Machine.readsUnset module ⟨steps, depth⟩ = true) ↔
      ∃ rounds,
        program.evaluate { maxDepth := depth, rounds, strict := true } = .error .unset := by
  constructor
  · intro runs
    rcases runs with ⟨steps, reads⟩
    exact ⟨steps, evaluate_of_readsUnset lowered reads⟩
  · intro evaluates
    rcases evaluates with ⟨rounds, evaluated⟩
    exact readsUnset_of_evaluate lowered evaluated

section

private def passed : Ident := ⟨"x", default⟩

/-- A program whose `main` passes by the declaration of the local that it returns. -/
def passedBy : Program where
  functions := []
  globals := []
  main := some {
    name := ⟨entryName, default⟩
    params := []
    body := [
      .if (.int 0 default) [.declare ⟨passed, .int 1 default⟩] .none,
      .return (.var passed)]
    span := default }

theorem passedBy_lowers : ∃ module, lower passedBy = .ok module :=
  eq_ok_of_isOk (by decide +kernel)

theorem passedBy_unset : passedBy.evaluate ⟨1, 0, true⟩ = .error .unset := by decide +kernel

theorem readsUnset_iff_passedBy : ∃ module, lower passedBy = .ok module ∧
    ∃ steps, Machine.readsUnset module ⟨steps, 1⟩ = true := by
  obtain ⟨module, lowered⟩ := passedBy_lowers
  exact ⟨module, lowered, (readsUnset_iff lowered 1).mpr ⟨0, passedBy_unset⟩⟩

/-- Not every load of an accepted program is from a slot that something was stored to. -/
theorem not_forall_readsUnset_eq_false :
    ¬∀ (program : Program) (module : Ir.Module), lower program = .ok module →
      ∀ limits, Machine.readsUnset module limits = false := by
  intro initialised
  obtain ⟨module, lowered⟩ := passedBy_lowers
  obtain ⟨steps, reads⟩ := readsUnset_of_evaluate lowered passedBy_unset
  rw [initialised passedBy module lowered ⟨steps, 1⟩] at reads
  cases reads

end

end OliCompiler
