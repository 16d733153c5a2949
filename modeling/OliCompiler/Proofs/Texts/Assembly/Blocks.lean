import OliCompiler.Proofs.Texts.Assembly.Operations

/-!
Labels, terminators and whole blocks in LLVM assembly.
-/

namespace OliCompiler.Ir

open Text

namespace Llvm

variable {module module' : Module} {names names' : List String} {defined defined' : List Function}
  {function function' : Function} {terminator terminator' : Terminator} {block block' : Block}

/-- A branch target as it is written. -/
def target (function : Function) (id : BlockId) : String := "%" ++ label function id

theorem label_eq (labelled : ∀ block ∈ function.blocks, block.Labelled) (id : BlockId) :
    ∃ hint, Whole hint ∧ Undigited hint ∧ label function id = hint ++ toString id.index := by
  unfold label
  split
  next block found =>
    have member := List.mem_reverse.mp (List.mem_of_find?_eq_some found)
    obtain ⟨hint, named, whole, undigited⟩ := labelled block member
    obtain rfl : block.id = id := by simpa using List.find?_some found
    refine ⟨hint, whole, undigited, ?_⟩
    rw [Block.name, named]
  next => exact ⟨"bb", by decide, by decide, rfl⟩

theorem whole_target (labelled : ∀ block ∈ function.blocks, block.Labelled) (id : BlockId) :
    Whole (target function id) := by
  obtain ⟨hint, whole, _, same⟩ := label_eq labelled id
  rw [target, same]
  exact Whole.append (by decide) (solid_append.mpr ⟨whole.2, (whole_toString _).2⟩)

theorem target_inj (labelled : ∀ block ∈ function.blocks, block.Labelled)
    (labelled' : ∀ block ∈ function'.blocks, block.Labelled) {id id' : BlockId}
    (same : target function id = target function' id') : id = id' := by
  obtain ⟨hint, _, undigited, known⟩ := label_eq labelled id
  obtain ⟨hint', _, undigited', known'⟩ := label_eq labelled' id'
  have labels := (String.append_right_inj _).mp same
  rw [known, known'] at labels
  have numbers := (label_inj undigited undigited' labels).2
  cases id
  cases id'
  exact congrArg BlockId.mk numbers

/-- The fields of a terminator. -/
def exitFields (function : Function) : Terminator → List String
  | .ret value => ["ret", "i32", value.text]
  | .jump id => ["br", "label", target function id]
  | .branch condition yes no =>
    ["br", "i1", condition.text, "label", target function yes, "label", target function no]
  | .unreachable => ["unreachable"]

theorem append_label (before : String) (id : BlockId) :
    before ++ ", label %" ++ label function id = before ++ (", label " ++ target function id) := by
  rw [String.append_assoc]
  exact congrArg (before ++ ·) (@String.append_assoc ", label " "%" (label function id))

theorem fields_terminatorLine (inside : function.Legible) (readable : terminator.Legible) :
    fields (terminatorLine function terminator) = exitFields function terminator := by
  have written := fun id => (whole_target inside.labelled id).fields_eq
  unfold terminatorLine
  rw [fields_append_of_closes (by decide)]
  cases terminator with
  | ret value =>
    have whole : Whole value.text := Operand.Legible.whole readable
    simp only [inside.result]
    rw [fields_append_of_closes (by decide), whole.fields_eq]
    rfl
  | jump id =>
    have jump : "br label %" ++ label function id = "br label " ++ target function id :=
      @String.append_assoc "br label " "%" _
    simp only [jump]
    rw [fields_append_of_closes (by decide), written]
    rfl
  | branch condition yes no =>
    have whole : Whole condition.text := Operand.Legible.whole readable
    simp only [append_label]
    simp (disch := decide) only [String.append_assoc, fields_append_of_closes,
      fields_append_between, whole.fields_eq, written]
    rfl
  | unreachable =>
    show fields "  " ++ fields "unreachable" = ["unreachable"]
    rfl

theorem solid_exitFields (inside : function.Legible) (readable : terminator.Legible) :
    ∀ field ∈ exitFields function terminator, Solid field := by
  have solid := fun id => (whole_target inside.labelled id).2
  cases terminator <;> simp only [exitFields, List.forall_mem_cons]
  case ret value =>
    have whole : Whole value.text := Operand.Legible.whole readable
    exact ⟨by decide, by decide, whole.2, by simp⟩
  case jump id => exact ⟨by decide, by decide, solid id, by simp⟩
  case branch condition yes no =>
    have whole : Whole condition.text := Operand.Legible.whole readable
    exact ⟨by decide, by decide, whole.2, by decide, solid yes, by decide, solid no, by simp⟩
  case unreachable => decide

theorem exitFields_injective (inside : function.Legible) (inside' : function'.Legible)
    (same : exitFields function terminator = exitFields function' terminator') :
    terminator = terminator' := by
  have targets := fun {id id'} => @target_inj _ _ inside.labelled inside'.labelled id id'
  cases terminator <;> cases terminator' <;>
    simp only [exitFields, List.cons.injEq, Operand.text_injective.eq_iff, String.reduceEq, false_and,
      and_false, reduceCtorEq, true_and, and_true] at same ⊢
  case ret.ret => rw [same]
  case jump.jump => rw [targets same]
  case branch.branch => rw [same.1, targets same.2.1, targets same.2.2]

theorem terminatorLine_injective (inside : function.Legible) (inside' : function'.Legible)
    (readable : terminator.Legible) (readable' : terminator'.Legible)
    (same : terminatorLine function terminator = terminatorLine function' terminator') :
    terminator = terminator' := by
  have words := congrArg fields same
  rw [fields_terminatorLine inside readable, fields_terminatorLine inside' readable'] at words
  exact exitFields_injective inside inside' words

theorem blockLines_eq (readable : block.Legible) :
    ∃ hint terminator, block = ⟨block.id, some hint, block.instrs, some terminator⟩ ∧
      Whole hint ∧ Undigited hint ∧ terminator.Legible ∧
      blockLines module function block = (hint ++ toString block.id.index ++ ":") ::
        (block.instrs.map (instrLine module) ++ [terminatorLine function terminator]) := by
  obtain ⟨id, _, instrs, _⟩ := block
  obtain ⟨⟨hint, rfl, whole, undigited⟩, _, terminator, rfl, exit⟩ := readable
  exact ⟨hint, terminator, rfl, whole, undigited, exit, rfl⟩

/-- A block is known by its lines. -/
theorem blockLines_injective (legible : module.Legible names defined)
    (legible' : module'.Legible names' defined') (inside : function.Legible)
    (inside' : function'.Legible) (readable : block.Legible) (readable' : block'.Legible)
    (same : blockLines module function block = blockLines module' function' block') :
    block = block' := by
  obtain ⟨hint, terminator, parts, _, undigited, exit, lines⟩ :=
    @blockLines_eq module function _ readable
  obtain ⟨hint', terminator', parts', _, undigited', exit', lines'⟩ :=
    @blockLines_eq module' function' _ readable'
  rw [lines, lines', List.cons.injEq, String.append_left_inj] at same
  obtain ⟨rfl, number⟩ := label_inj undigited undigited' same.1
  obtain ⟨instrs, last⟩ := List.append_inj' same.2 rfl
  have ids : block.id = block'.id := congrArg BlockId.mk number
  have exits := terminatorLine_injective inside inside' exit exit' (List.cons.inj last).1
  have instrs := eq_of_map_eq instrs fun instr member instr' listed =>
    instrLine_injective legible legible' (readable.instrs instr member)
      (readable'.instrs instr' listed)
  rw [parts, parts', ids, exits, instrs]

theorem unbroken_blockLines (legible : module.Legible names defined) (inside : function.Legible)
    (readable : block.Legible) : ∀ line ∈ blockLines module function block, Unbroken line := by
  obtain ⟨hint, terminator, _, whole, _, exit, lines⟩ := @blockLines_eq module function _ readable
  rw [lines, List.forall_mem_cons, List.forall_mem_append, List.forall_mem_map,
    List.forall_mem_singleton]
  refine ⟨?_, fun instr member => ?_, ?_⟩
  · simp only [unbroken_append]
    exact ⟨⟨whole.2.unbroken, (whole_toString _).2.unbroken⟩, by decide⟩
  · have known := readable.instrs instr member
    apply unbroken_of_fields
    rw [fields_instrLine legible known]
    exact solid_instrFields known
  · apply unbroken_of_fields
    rw [fields_terminatorLine inside exit]
    exact solid_exitFields inside exit

/-- No line of a block is blank or closes a function. -/
theorem blockLines_ne (readable : block.Legible) :
    "" ∉ blockLines module function block ∧ "\x7d" ∉ blockLines module function block := by
  obtain ⟨hint, terminator, _, _, _, _, lines⟩ := @blockLines_eq module function _ readable
  have indented : ∀ {line : String}, line.toList.head? = some ' ' → line ≠ "" ∧ line ≠ "\x7d" := by
    rintro line blank
    constructor <;> rintro rfl <;> exact absurd blank (by decide)
  have labelled : ∀ {line : String}, line ++ ":" ≠ "" ∧ line ++ ":" ≠ "\x7d" := by
    intro line
    constructor <;> intro same <;> simpa using congrArg (·.toList.getLast?) same
  have lines : ∀ line ∈ blockLines module function block, line ≠ "" ∧ line ≠ "\x7d" := by
    rw [lines, List.forall_mem_cons, List.forall_mem_append, List.forall_mem_map,
      List.forall_mem_singleton]
    exact ⟨labelled, fun instr _ => indented (by simp [instrLine]),
      indented (by simp [terminatorLine])⟩
  exact ⟨fun member => (lines _ member).1 rfl, fun member => (lines _ member).2 rfl⟩

end Llvm

end OliCompiler.Ir
