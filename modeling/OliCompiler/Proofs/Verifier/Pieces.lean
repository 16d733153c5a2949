import OliCompiler.Proofs.Lowering.Code
import OliCompiler.Proofs.Verifier.Rules
import Mathlib.Data.List.Perm.Basic

/-!
The rules of the verifier for code that is still one sequence of pieces, and what follows for its
blocks.
-/

namespace OliCompiler.Ir

/-- Whether a text does not end with a digit. -/
def Undigited (text : String) : Prop := text.toList.reverse.takeWhile Char.isDigit = []

instance (text : String) : Decidable (Undigited text) :=
  inferInstanceAs (Decidable (text.toList.reverse.takeWhile Char.isDigit = []))

/-- The digits at the end of a text, the last one first. -/
def trailing (text : String) : List Char := text.toList.reverse.takeWhile Char.isDigit

theorem trailing_append {hint : String} (undigited : Undigited hint) (number : Nat) :
    trailing (hint ++ toString number) = (Nat.toDigits 10 number).reverse := by
  have digits : ∀ c ∈ (Nat.toDigits 10 number).reverse, c.isDigit = true := by
    intro c member
    exact Nat.isDigit_of_mem_toDigits (by decide) (Nat.le_refl 10) (List.mem_reverse.mp member)
  rw [trailing, String.toList_append, List.reverse_append, Nat.toString_eq_ofList_toDigits,
    String.toList_ofList, List.takeWhile_append_of_pos digits, undigited, List.append_nil]

theorem toDigits_injective : Function.Injective fun number => (Nat.toDigits 10 number).reverse := by
  intro a b same
  have same := congrArg (Nat.ofDigitChars 10 · 0) (List.reverse_injective same)
  simpa only [Nat.ofDigitChars_ten_toDigits] using same

/-- Blocks have distinct names if they have distinct numbers and hints that do not end with digits. -/
theorem names_nodup {blocks : List Block} (ids : (blocks.map Block.id).Nodup)
    (hints : ∀ block ∈ blocks, ∃ hint, block.hint = some hint ∧ Undigited hint) :
    (blocks.map Block.name).Nodup := by
  apply List.Nodup.of_map trailing
  have same : (blocks.map Block.name).map trailing =
      (blocks.map Block.id).map fun id => (Nat.toDigits 10 id.index).reverse := by
    rw [List.map_map, List.map_map]
    refine List.map_congr_left fun block member => ?_
    obtain ⟨hint, found, undigited⟩ := hints block member
    simp only [Function.comp_apply, Block.name, found]
    exact trailing_append undigited block.id.index
  rw [same]
  refine ids.map fun a b digits => ?_
  cases a
  cases b
  exact congrArg BlockId.mk (toDigits_injective digits)

variable {around : Surroundings} {context wider : Context} {instrs instrs' : List Instr}
  {code code' : Code}

/-- The context behind instructions. -/
def behind (context : Context) (instrs : List Instr) : Context :=
  instrs.foldl (fun context instr => instr.extend context) context

/-- Whether instructions are allowed one behind the other. -/
def AllAllowed (around : Surroundings) : Context → List Instr → Prop
  | _, [] => True
  | context, instr :: instrs =>
    instr.Allowed around context ∧ AllAllowed around (instr.extend context) instrs

/-- Whether the pieces that follow are allowed. A label starts with a context of its own. -/
def Code.Verified (around : Surroundings) : Context → Code → Prop
  | _, [] => True
  | context, .slot _ :: code => Code.Verified around context code
  | context, .instr instr :: code =>
    instr.Allowed around context ∧ Code.Verified around (instr.extend context) code
  | context, .exit terminator :: code =>
    terminator.Allowed around context ∧ Code.Verified around context code
  | _, .label _ hint :: code => Undigited hint ∧ Code.Verified around [] code

theorem behind_append : behind context (instrs ++ instrs') = behind (behind context instrs) instrs' :=
  List.foldl_append

theorem AllAllowed.append (first : AllAllowed around context instrs)
    (second : AllAllowed around (behind context instrs) instrs') :
    AllAllowed around context (instrs ++ instrs') := by
  induction instrs generalizing context with
  | nil => exact second
  | cons instr instrs ih => exact ⟨first.1, ih first.2 second⟩

theorem subset_extend {instr : Instr} : context ⊆ instr.extend context := by
  unfold Instr.extend
  split
  · exact List.subset_cons_self _ _
  · exact List.Subset.refl _

theorem subset_behind : context ⊆ behind context instrs := by
  induction instrs generalizing context with
  | nil => exact List.Subset.refl _
  | cons instr instrs ih => exact List.Subset.trans subset_extend ih

theorem Operand.HasKind.mono {operand : Operand} {kind : Kind}
    (has : operand.HasKind around context kind) (subset : context ⊆ wider) :
    operand.HasKind around wider kind := by
  cases operand with
  | reg reg => exact has.imp_left fun known => subset known
  | int | global => exact has

namespace Code

theorem Verified.ofInstrs (allowed : AllAllowed around context instrs)
    (rest : Code.Verified around (behind context instrs) code) :
    Code.Verified around context (Code.ofInstrs instrs ++ code) := by
  induction instrs generalizing context with
  | nil => exact rest
  | cons instr instrs ih => exact ⟨allowed.1, ih allowed.2 rest⟩

/-- Code whose rest is allowed in any context. -/
theorem Verified.append (first : Code.Verified around context code)
    (rest : ∀ context, Code.Verified around context code') :
    Code.Verified around context (code ++ code') := by
  induction code generalizing context with
  | nil => exact rest context
  | cons piece code ih =>
    cases piece with
    | slot => exact ih first
    | instr | exit | label => exact ⟨first.1, ih first.2⟩

/-- The block in progress is as the verifier asks, if it has an end. -/
theorem Verified.body (verified : Code.Verified around context code)
    (ended : (Code.ending code).isSome) :
    Ir.Verified around context (Code.body code) (Code.ending code) := by
  induction code generalizing context with
  | nil => cases ended
  | cons piece code ih =>
    cases piece with
    | slot => exact ih verified ended
    | instr => exact ⟨verified.1, ih verified.2 ended⟩
    | exit terminator => exact ⟨terminator, rfl, verified.1⟩
    | label => cases ended

theorem Verified.blocks (verified : Code.Verified around context code) :
    ∀ block ∈ Code.blocks code, (∃ hint, block.hint = some hint ∧ Undigited hint) ∧
      (block.terminator.isSome → Ir.Verified around [] block.instrs block.terminator) := by
  induction code generalizing context with
  | nil => simp [Code.blocks]
  | cons piece code ih =>
    cases piece with
    | slot => exact ih verified
    | instr | exit => exact ih verified.2
    | label id hint =>
      refine List.forall_mem_cons.mpr ⟨⟨⟨hint, rfl, verified.1⟩, ?_⟩, ih verified.2⟩
      exact verified.2.body

/-- The registers that instructions assign. -/
def results : Code → List Reg
  | [] => []
  | .instr instr :: code => instr.result.toList ++ results code
  | .slot _ :: code | .exit _ :: code | .label _ _ :: code => results code

theorem defined_perm : (Code.defined code).Perm (Code.slots code ++ results code) := by
  induction code with
  | nil => exact .nil
  | cons piece code ih =>
    cases piece with
    | slot reg => exact ih.cons reg
    | instr instr =>
      exact (ih.append_left instr.result.toList).trans (List.perm_append_comm_assoc _ _ _)
    | exit | label => exact ih

/-- Blocks assign no register that the pieces do not assign. -/
theorem results_sublist : ((Code.body code).filterMap Instr.result ++
    (Code.blocks code).flatMap fun block => block.instrs.filterMap Instr.result).Sublist
      (results code) := by
  induction code with
  | nil => exact .slnil
  | cons piece code ih =>
    cases piece with
    | slot => exact ih
    | instr instr =>
      cases found : instr.result with
      | none => simpa [Code.body, Code.blocks, results, found] using ih
      | some reg => simpa [Code.body, Code.blocks, results, found] using ih
    | exit => exact (List.sublist_append_right _ _).trans ih
    | label => simpa [Code.body, Code.blocks, results] using ih

end Code

end OliCompiler.Ir
