import OliCompiler.Proofs.Texts.Assembly
import OliCompiler.Proofs.Texts.Listing
import OliCompiler.Proofs.Texts.Lowered

/-!
The emitted texts lose nothing: globals, signatures, blocks, labels, registers, operands, callees and
branch targets of a lowered module can all be read back from its assembly and from its listing.
-/

namespace OliCompiler

open Scanning

/-- Lowered modules are equal if their assembly or their listings are. The names of parameters and
locals do not matter, since no module holds them. -/
theorem lower_texts_injective {program program' : Program} {module module' : Ir.Module}
    (lowered : lower program = .ok module) (lowered' : lower program' = .ok module')
    (names : ∀ name ∈ program.symbolNames, IsName name.toList)
    (names' : ∀ name ∈ program'.symbolNames, IsName name.toList) :
    (module.llvm = module'.llvm → module = module') ∧
      (module.listing = module'.listing → module = module') := by
  obtain ⟨_, _, legible⟩ := legible_of_lower lowered names
  obtain ⟨_, _, legible'⟩ := legible_of_lower lowered' names'
  exact ⟨legible.llvm_inj legible', legible.listing_inj legible'⟩

/-- A program with a function that returns its parameter. -/
def identity (param : String) : Program where
  functions :=
    [⟨⟨"identity", default⟩, [⟨param, default⟩], [.return (.var ⟨param, default⟩)], default⟩]
  globals := [⟨⟨"total", default⟩, .int 1 default⟩]
  main := some ⟨⟨entryName, default⟩, [], [.return (.var ⟨"total", default⟩)], default⟩

/-- Programs that differ in the name of a parameter have the same texts, and so the same module. -/
theorem lower_texts_injective_identity : ∃ module module',
    lower (identity "x") = .ok module ∧ lower (identity "y") = .ok module' ∧
      (∀ name ∈ (identity "x").symbolNames, IsName name.toList) ∧
      (∀ name ∈ (identity "y").symbolNames, IsName name.toList) ∧
      module.llvm = module'.llvm ∧ module.listing = module'.listing ∧ module = module' := by
  have accepted : (lower (identity "x")).isOk = true := by decide +kernel
  have accepted' : (lower (identity "y")).isOk = true := by decide +kernel
  have assembly : (lower (identity "x")).map Ir.Module.llvm =
      (lower (identity "y")).map Ir.Module.llvm := by decide +kernel
  have listing : (lower (identity "x")).map Ir.Module.listing =
      (lower (identity "y")).map Ir.Module.listing := by decide +kernel
  obtain ⟨module, lowered⟩ := eq_ok_of_isOk accepted
  obtain ⟨module', lowered'⟩ := eq_ok_of_isOk accepted'
  rw [lowered, lowered'] at assembly listing
  have names : ∀ name ∈ (identity "x").symbolNames, IsName name.toList := by decide
  have names' : ∀ name ∈ (identity "y").symbolNames, IsName name.toList := by decide
  have injective := lower_texts_injective lowered lowered' names names'
  have same := Except.ok.inj assembly
  exact ⟨module, module', lowered, lowered', names, names', same, Except.ok.inj listing,
    injective.1 same⟩

end OliCompiler
