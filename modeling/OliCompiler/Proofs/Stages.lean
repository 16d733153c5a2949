import OliCompiler.Proofs.Stages.Names
import OliCompiler.Proofs.Stages.Outcomes
import OliCompiler.Proofs.Stages.Reading

/-!
The stages agree. Each checks again some of what those before it have let through, and these checks
never fail.
-/

namespace OliCompiler

/-- Whether a failure is of a check that the stages before have made already. -/
def CompileError.isRechecked : CompileError → Bool
  | .parse error => error.cause.isRechecked
  | .lower error => error.isRechecked
  | .lexical _ | .extension _ | .io _ _ => false

/-- No compilation of a text fails because the reading meets an integer out of range or finds a token
that is no part of a program, nor because the lowering meets a keyword for a name, a jump outside of
loops or a block left open. -/
theorem compile_never_rechecked {source : String} {error : CompileError}
    (failed : compile source = .error error) : error.isRechecked = false := by
  rcases compile_error_cases failed with
    ⟨_, rfl⟩ | ⟨clean, ⟨fault, refused, rfl⟩ | ⟨program, read, fault, refused, rfl⟩⟩
  · rfl
  · exact (parse_yields (scan_sound clean)).2 fault refused
  · exact lower_isRechecked ((parse_yields (scan_sound clean)).1 program read) refused

/-- A text that steps an unknown variable in a loop and leaves it. -/
def unknownStep : String := "fn main() \x7b while (1) \x7b x++; break; \x7d \x7d"

theorem compile_never_rechecked_unknownStep :
    ∃ error, compile unknownStep = .error error ∧ error.isRechecked = false := by
  have refused : (compile unknownStep).isOk = false := by decide +kernel
  cases failed : compile unknownStep with
  | ok compilation =>
    rw [failed] at refused
    cases refused
  | error error => exact ⟨error, rfl, compile_never_rechecked failed⟩

end OliCompiler
