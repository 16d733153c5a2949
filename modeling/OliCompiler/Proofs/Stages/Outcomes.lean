import OliCompiler.Compile

/-!
The stages that a compilation passes. It succeeds if all of them do, and it fails with the fault of the
first that does not.
-/

namespace OliCompiler

variable {source : String} {program : Program}

theorem parseSource_of_clean (clean : (scan source).errors = []) :
    parseSource source = (parse (scan source).tokens).mapError .parse := by
  have tokens : tokenize source = .ok (scan source).tokens := by simp [tokenize, clean]
  rw [parseSource, tokens]
  rfl

theorem compile_of_errors (faulty : (scan source).errors ≠ []) :
    compile source = .error (.lexical (scan source).errors) := by
  have tokens : tokenize source = .error (.lexical (scan source).errors) := by simp [tokenize, faulty]
  rw [compile, parseSource, tokens]
  rfl

theorem compile_of_parse_error {fault : ParseError} (clean : (scan source).errors = [])
    (failed : parse (scan source).tokens = .error fault) : compile source = .error (.parse fault) := by
  rw [compile, parseSource_of_clean clean, failed]
  rfl

theorem compile_of_parse (clean : (scan source).errors = [])
    (read : parse (scan source).tokens = .ok program) :
    compile source = ((lower program).mapError .lower).map fun module => ⟨program, module⟩ := by
  have behind : compile source = do
      let module ← (lower program).mapError .lower
      return ⟨program, module⟩ := by
    rw [compile, parseSource_of_clean clean, read]
    rfl
  rw [behind]
  cases lower program <;> rfl

/-- The fault of a compilation is that of the first stage that fails. -/
theorem compile_error_cases {error : CompileError} (failed : compile source = .error error) :
    ((scan source).errors ≠ [] ∧ error = .lexical (scan source).errors) ∨
      (scan source).errors = [] ∧
        ((∃ fault, parse (scan source).tokens = .error fault ∧ error = .parse fault) ∨
          ∃ program, parse (scan source).tokens = .ok program ∧
            ∃ fault, lower program = .error fault ∧ error = .lower fault) := by
  by_cases clean : (scan source).errors = []
  · refine .inr ⟨clean, ?_⟩
    cases read : parse (scan source).tokens with
    | error fault =>
      rw [compile_of_parse_error clean read] at failed
      exact .inl ⟨fault, rfl, (Except.error.inj failed).symm⟩
    | ok program =>
      rw [compile_of_parse clean read] at failed
      cases lowered : lower program with
      | error fault =>
        rw [lowered] at failed
        exact .inr ⟨program, rfl, fault, lowered, (Except.error.inj failed).symm⟩
      | ok module =>
        rw [lowered] at failed
        cases failed
  · rw [compile_of_errors clean] at failed
    exact .inl ⟨clean, (Except.error.inj failed).symm⟩

end OliCompiler
