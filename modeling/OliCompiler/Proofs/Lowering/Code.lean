import OliCompiler.Ir.Builder
import Mathlib.Data.List.Nodup

/-!
The code of a function as one sequence of pieces, in the order in which lowering emits them. A label
starts a block, which goes on to the next label; a stack slot stands where it was asked for, although
it belongs to the entry block.
-/

namespace OliCompiler.Ir

inductive Piece where
  | slot (reg : Reg)
  | instr (instr : Instr)
  | exit (terminator : Terminator)
  | label (id : BlockId) (hint : String)
deriving DecidableEq, Repr

abbrev Code := List Piece

namespace Code

/-- The instructions up to the end of the block. -/
def body : Code → List Instr
  | .instr instr :: code => instr :: body code
  | .slot _ :: code => body code
  | .exit _ :: _ | .label _ _ :: _ | [] => []

/-- How the block ends. -/
def ending : Code → Option Terminator
  | .exit terminator :: _ => some terminator
  | .instr _ :: code | .slot _ :: code => ending code
  | .label _ _ :: _ | [] => none

def blocks : Code → List Block
  | [] => []
  | .label id hint :: code => ⟨id, some hint, body code, ending code⟩ :: blocks code
  | .slot _ :: code | .instr _ :: code | .exit _ :: code => blocks code

def slots : Code → List Reg
  | [] => []
  | .slot reg :: code => reg :: slots code
  | .instr _ :: code | .exit _ :: code | .label _ _ :: code => slots code

def labels : Code → List BlockId
  | [] => []
  | .label id _ :: code => id :: labels code
  | .slot _ :: code | .instr _ :: code | .exit _ :: code => labels code

/-- The registers that the pieces define, in order. -/
def defined : Code → List Reg
  | [] => []
  | .slot reg :: code => reg :: defined code
  | .instr instr :: code => instr.result.toList ++ defined code
  | .exit _ :: code | .label _ _ :: code => defined code

def ofInstrs (instrs : List Instr) : Code := instrs.map .instr

/-- Whether a piece stands inside a block. -/
def Inner : Piece → Prop
  | .slot _ | .instr _ => True
  | .exit _ | .label _ _ => False

variable {code code' inner : Code}

@[simp]
theorem slots_append : slots (code ++ code') = slots code ++ slots code' := by
  induction code with
  | nil => rfl
  | cons piece code ih => cases piece <;> simp [slots, ih]

@[simp]
theorem labels_append : labels (code ++ code') = labels code ++ labels code' := by
  induction code with
  | nil => rfl
  | cons piece code ih => cases piece <;> simp [labels, ih]

@[simp]
theorem defined_append : defined (code ++ code') = defined code ++ defined code' := by
  induction code with
  | nil => rfl
  | cons piece code ih => cases piece <;> simp [defined, ih]

@[simp]
theorem ofInstrs_append {instrs instrs' : List Instr} :
    ofInstrs (instrs ++ instrs') = ofInstrs instrs ++ ofInstrs instrs' := List.map_append

@[simp]
theorem slots_ofInstrs {instrs : List Instr} : slots (ofInstrs instrs) = [] := by
  induction instrs with
  | nil => rfl
  | cons _ _ ih => exact ih

/-- Induction on code inside a block. -/
@[elab_as_elim]
theorem inner_induction {motive : (code : Code) → (∀ piece ∈ code, Inner piece) → Prop}
    (nil : motive [] (List.forall_mem_nil _))
    (slot : ∀ {reg : Reg} {code : Code} (inside : ∀ piece ∈ code, Inner piece), motive code inside →
      motive (.slot reg :: code) (List.forall_mem_cons.mpr ⟨trivial, inside⟩))
    (instr : ∀ {instr : Instr} {code : Code} (inside : ∀ piece ∈ code, Inner piece), motive code inside →
      motive (.instr instr :: code) (List.forall_mem_cons.mpr ⟨trivial, inside⟩))
    {code : Code} (inside : ∀ piece ∈ code, Inner piece) : motive code inside := by
  induction code with
  | nil => exact nil
  | cons piece code ih =>
    obtain ⟨first, rest⟩ := List.forall_mem_cons.mp inside
    cases piece with
    | slot => exact slot rest (ih rest)
    | instr => exact instr rest (ih rest)
    | exit | label => cases first

theorem inner_ofInstrs {instrs : List Instr} : ∀ piece ∈ ofInstrs instrs, Inner piece := by
  intro piece member
  obtain ⟨instr, _, rfl⟩ := List.mem_map.mp member
  trivial

theorem labels_inner (inside : ∀ piece ∈ inner, Inner piece) : labels inner = [] := by
  induction inside using inner_induction with
  | nil => rfl
  | slot _ ih | instr _ ih => exact ih

@[simp]
theorem labels_ofInstrs {instrs : List Instr} : labels (ofInstrs instrs) = [] :=
  labels_inner inner_ofInstrs

theorem map_id_blocks : (blocks code).map Block.id = labels code := by
  induction code with
  | nil => rfl
  | cons piece code ih => cases piece <;> simp [blocks, labels, ih]

theorem body_append (inside : ∀ piece ∈ inner, Inner piece) :
    body (inner ++ code) = body inner ++ body code := by
  induction inside using inner_induction with
  | nil => rfl
  | slot _ ih => exact ih
  | instr _ ih => exact congrArg (_ :: ·) ih

theorem ending_append (inside : ∀ piece ∈ inner, Inner piece) :
    ending (inner ++ code) = ending code := by
  induction inside using inner_induction with
  | nil => rfl
  | slot _ ih | instr _ ih => exact ih

theorem blocks_append (inside : ∀ piece ∈ inner, Inner piece) :
    blocks (inner ++ code) = blocks code := by
  induction inside using inner_induction with
  | nil => rfl
  | slot _ ih | instr _ ih => exact ih

theorem body_append_label {id : BlockId} {hint : String} :
    body (code ++ .label id hint :: code') = body code := by
  induction code with
  | nil => rfl
  | cons piece code ih => cases piece <;> simp [body, ih]

theorem ending_append_label {id : BlockId} {hint : String} :
    ending (code ++ .label id hint :: code') = ending code := by
  induction code with
  | nil => rfl
  | cons piece code ih => cases piece <;> simp [ending, ih]

/-- A label ends the block before it. -/
theorem blocks_append_label {id : BlockId} {hint : String} :
    blocks (code ++ .label id hint :: code') = blocks code ++ blocks (.label id hint :: code') := by
  induction code with
  | nil => rfl
  | cons piece code ih =>
    cases piece <;> simp [blocks, body_append_label, ending_append_label, ih]

theorem result_mem_defined {instr : Instr} {reg : Reg} (member : .instr instr ∈ code)
    (result : instr.result = some reg) : reg ∈ defined code := by
  obtain ⟨before, behind, rfl⟩ := List.append_of_mem member
  simp [defined, result]

theorem slots_sublist : ∀ code : Code, (slots code).Sublist (defined code)
  | [] => .slnil
  | .slot _ :: code => (slots_sublist code).cons_cons _
  | .instr _ :: code => (slots_sublist code).trans (List.sublist_append_right _ _)
  | .exit _ :: code | .label _ _ :: code => slots_sublist code

/-- Where registers are distinct, no instruction has the register of a stack slot as its result. -/
theorem not_mem_slots {instr : Instr} {reg : Reg} (distinct : (defined code).Nodup)
    (member : .instr instr ∈ code) (result : instr.result = some reg) : reg ∉ slots code := by
  induction code with
  | nil => cases member
  | cons piece code ih =>
    cases piece with
    | slot other =>
      obtain ⟨absent, distinct⟩ := List.nodup_cons.mp distinct
      have member := (List.mem_cons.mp member).resolve_left Piece.noConfusion
      have listed : reg ∈ defined code := result_mem_defined member result
      rintro (_ | ⟨_, slot⟩)
      · exact absent listed
      · exact ih distinct member slot
    | instr other =>
      rcases List.mem_cons.mp member with same | member
      · obtain rfl := Piece.instr.inj same
        intro slot
        refine List.disjoint_of_nodup_append distinct ?_ ((slots_sublist code).subset slot)
        rw [result]
        exact List.mem_singleton.mpr rfl
      · exact ih (List.Nodup.of_append_right distinct) member
    | exit | label => exact ih distinct ((List.mem_cons.mp member).resolve_left Piece.noConfusion)

/-- The block of a label is found where labels are distinct. -/
theorem find?_blocks {id : BlockId} {hint : String} {rest : Code}
    (distinct : (labels code).Nodup) (placed : .label id hint :: rest <:+ code) :
    (blocks code).find? (fun block => block.id = id) =
      some ⟨id, some hint, body rest, ending rest⟩ := by
  obtain ⟨before, rfl⟩ := placed
  have absent : id ∉ labels before := by
    rw [labels_append, labels] at distinct
    intro member
    exact List.disjoint_of_nodup_append distinct member List.mem_cons_self
  rw [blocks_append_label, List.find?_append, List.find?_eq_none.mpr]
  · simp [blocks]
  · intro block member same
    rw [← map_id_blocks] at absent
    exact absent (List.mem_map.mpr ⟨block, member, by simpa using same⟩)

end Code

end OliCompiler.Ir
