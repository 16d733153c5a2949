import OliCompiler.Ir.Listing
import OliCompiler.Proofs.Lowering.Module
import OliCompiler.Proofs.Places.Reading
import OliCompiler.Proofs.Places.Settling
import OliCompiler.Proofs.Stages.Outcomes

/-!
The layout of a source text does not matter. Blanks, comments, line breaks and the short form of a
step change the places of tokens only, and no stage behind the scanning looks at those but to report a
fault.
-/

namespace OliCompiler

open Printing

/-- The failure of a stage behind the scanning, with nothing known of where it stands. -/
def CompileError.bare : CompileError → CompileError
  | .parse error => .parse error.bare
  | .lower error => .lower error.bare
  | error => error

/-- A program without places is lowered to the same module, or refused with the same fault. -/
theorem lower_bare (program : Program) :
    lower program.bare = (lower program).mapError LowerError.bare := by
  cases resolved : resolve program with
  | ok settled =>
    obtain ⟨module, lowered, _⟩ := Lower.lower_of_resolve resolved
    have same : lower program.bare = lower program := by
      rw [lower, lower, resolve_bare, resolved]
      rfl
    rw [same, lowered]
    rfl
  | error error =>
    rw [lower, lower, resolve_bare, resolved]
    rfl

/-- Results that agree when places are not known are both values or both faults. -/
theorem alike_cases {ε α : Type} {bareError : ε → ε} {bare : α → α} {result result' : Except ε α}
    (same : (result.mapError bareError).map bare = (result'.mapError bareError).map bare) :
    (∃ value value', result = .ok value ∧ result' = .ok value' ∧ bare value = bare value') ∨
      ∃ error error', result = .error error ∧ result' = .error error' ∧
        bareError error = bareError error' := by
  cases result with
  | ok value =>
    cases result' with
    | ok value' => exact .inl ⟨value, value', rfl, rfl, Except.ok.inj same⟩
    | error error' => cases same
  | error error =>
    cases result' with
    | ok value' => cases same
    | error error' => exact .inr ⟨error, error', rfl, rfl, Except.error.inj same⟩

/-- Source texts with the same tokens at any places are compiled to the same program up to places, with
the same module, or they fail alike up to places. -/
theorem compile_layout {source source' : String} (clean : (scan source).errors = [])
    (clean' : (scan source').errors = [])
    (same : (scan source).tokens.map content = (scan source').tokens.map content) :
    (∃ compilation compilation',
      compile source = .ok compilation ∧ compile source' = .ok compilation' ∧
      compilation.program.bare = compilation'.program.bare ∧
      compilation.module = compilation'.module ∧
      compilation.module.listing = compilation'.module.listing ∧
      compilation.llvm = compilation'.llvm) ∨
    ∃ error error', compile source = .error error ∧ compile source' = .error error' ∧
      error.bare = error'.bare := by
  rcases alike_cases (parse_congr same) with
    ⟨program, program', read, read', alike⟩ | ⟨fault, fault', failed, failed', alike⟩
  · have lowers : ((lower program).mapError LowerError.bare).map id =
        ((lower program').mapError LowerError.bare).map id := by
      rw [← lower_bare, ← lower_bare, alike]
    rw [compile_of_parse clean read, compile_of_parse clean' read']
    rcases alike_cases lowers with
      ⟨module, module', lowered, lowered', rfl⟩ | ⟨fault, fault', failed, failed', faults⟩
    · rw [lowered, lowered']
      exact .inl ⟨⟨program, module⟩, ⟨program', module⟩, rfl, rfl, alike, rfl, rfl, rfl⟩
    · rw [failed, failed']
      exact .inr ⟨.lower fault, .lower fault', rfl, rfl, congrArg CompileError.lower faults⟩
  · rw [compile_of_parse_error clean failed, compile_of_parse_error clean' failed']
    exact .inr ⟨.parse fault, .parse fault', rfl, rfl, congrArg CompileError.parse alike⟩

/-- A source text on one line, with a step. -/
def terse : String := "fn main()\x7blet x=1;x++;return x;\x7d"

/-- The text `terse` on several lines, with comments and an assignment for the step. -/
def roomy : String :=
  "fn main() \x7b\n    let x = 1; // one\n    x = x + 1; /* two */\n    return x;\n\x7d\n"

theorem compile_layout_terse : (scan terse).errors = [] ∧ (scan roomy).errors = [] ∧
    (scan terse).tokens.map content = (scan roomy).tokens.map content ∧
    ((∃ compilation compilation',
      compile terse = .ok compilation ∧ compile roomy = .ok compilation' ∧
      compilation.program.bare = compilation'.program.bare ∧
      compilation.module = compilation'.module ∧
      compilation.module.listing = compilation'.module.listing ∧
      compilation.llvm = compilation'.llvm) ∨
    ∃ error error', compile terse = .error error ∧ compile roomy = .error error' ∧
      error.bare = error'.bare) := by
  have clean : (scan terse).errors = [] := by decide +kernel
  have clean' : (scan roomy).errors = [] := by decide +kernel
  have same : (scan terse).tokens.map content = (scan roomy).tokens.map content := by decide +kernel
  exact ⟨clean, clean', same, compile_layout clean clean' same⟩

end OliCompiler
