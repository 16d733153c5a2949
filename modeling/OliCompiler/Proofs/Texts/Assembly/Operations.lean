import OliCompiler.Ir.Llvm
import OliCompiler.Proofs.Texts.Legible

/-!
Instructions in LLVM assembly, as the fields of their lines.
-/

namespace OliCompiler.Ir

open Text

namespace Llvm

variable {module module' : Module} {names names' : List String} {defined defined' : List Function}
  {op op' : Op} {instr instr' : Instr}

theorem typedArgs_integers {tys : List Ty} {args : List Operand} (integers : ∀ ty ∈ tys, ty = .i32) :
    typedArgs tys args = (args.map Operand.text).map ("i32 " ++ ·) := by
  induction args generalizing tys with
  | nil => cases tys <;> rfl
  | cons arg args ih =>
    cases tys with
    | nil => exact congrArg (_ :: ·) (ih integers)
    | cons ty tys =>
      obtain ⟨rfl, others⟩ := List.forall_mem_cons.mp integers
      exact congrArg (_ :: ·) (ih others)

/-- The fields of the arguments of the printer. -/
def printed : List Operand → List String
  | [] => []
  | format :: args => "ptr" :: format.text :: typed (args.map Operand.text)

theorem fields_printed {args : List Operand} (readable : ∀ arg ∈ args, arg.Legible) :
    fields (commaSeparated (typedArgs [.ptr] args)) = printed args := by
  cases args with
  | nil => rfl
  | cons format args =>
    obtain ⟨first, others⟩ := List.forall_mem_cons.mp readable
    have one : fields (Ty.ptr.text ++ " " ++ format.text) = ["ptr", format.text] := by
      rw [fields_append_of_closes (by decide), first.whole.fields_eq]
      rfl
    rw [typedArgs, typedArgs_integers (by simp), fields_commaSeparated, List.flatMap_cons,
      ← fields_commaSeparated, fields_typed (Operand.whole_texts others), one]
    rfl

/-- The fields of the callee and the arguments of a call. -/
def called (callee : String) (args : List Operand) : List String :=
  if callee = printerName then "ptr" :: "..." :: ("@" ++ callee) :: printed args
  else ("@" ++ callee) :: typed (args.map Operand.text)

/-- The fields of an operation. -/
def opFields : Op → List String
  | .arith op left right => [op.mnemonic, "i32", left.text, right.text]
  | .compare op left right => ["icmp", op.mnemonic, "i32", left.text, right.text]
  | .widen value _ => ["zext", "i1", value.text, "to", "i32"]
  | .slot _ => ["alloca", "i32"]
  | .load address => ["load", "i32", "ptr", address.text]
  | .store address value => ["store", "i32", value.text, "ptr", address.text]
  | .call callee args => "call" :: "i32" :: called callee args

theorem signature?_printer (legible : module.Legible names defined) :
    signature? module printerName = some Lower.printer := by
  have none : defined.reverse.find? (fun function => function.name = printerName) = none := by
    simpa using legible.apart
  rw [signature?, legible.functions, List.reverse_cons, List.find?_append, none]
  rfl

theorem signature?_defined (legible : module.Legible names defined) {callee : String}
    (other : callee ≠ printerName) {function : Function}
    (found : signature? module callee = some function) : function.Legible := by
  have member := List.mem_reverse.mp (List.mem_of_find?_eq_some found)
  have named := List.find?_some found
  rw [legible.functions] at member
  rcases List.mem_cons.mp member with rfl | member
  · exact absurd (of_decide_eq_true named).symm other
  · exact legible.readable function member

theorem callText_printer (legible : module.Legible names defined) (args : List Operand) :
    callText module printerName args = "call i32 (ptr, ...) " ++ (Operand.global printerName).text ++
      "(" ++ commaSeparated (typedArgs [.ptr] args) ++ ")" := by
  rw [callText, signature?_printer legible]
  rfl

theorem callText_defined (legible : module.Legible names defined) {callee : String}
    (other : callee ≠ printerName) (args : List Operand) :
    callText module callee args = "call i32 " ++ (Operand.global callee).text ++ "(" ++
      commaSeparated ((args.map Operand.text).map ("i32 " ++ ·)) ++ ")" := by
  have named : "call i32 " ++ (Operand.global callee).text = "call i32 @" ++ callee :=
    String.append_assoc.symm
  rw [callText, named]
  split
  next =>
    rw [typedArgs_integers (by simp)]
  next function found =>
    have known := signature?_defined legible other found
    have integers : ∀ ty ∈ function.params.map (·.2), ty = .i32 :=
      List.forall_mem_map.mpr known.params
    rw [typedArgs_integers integers, known.result, known.variadic]
    rfl

theorem fields_callText (legible : module.Legible names defined) {callee : String}
    {args : List Operand} (callable : Whole callee) (readable : ∀ arg ∈ args, arg.Legible) :
    fields (callText module callee args) = "call" :: "i32" :: called callee args := by
  have named := (Operand.whole_global callable.2).fields_eq
  by_cases printer : callee = printerName
  · subst printer
    rw [callText_printer legible]
    simp (disch := decide) only [String.append_assoc, fields_append_of_closes,
      fields_append_between, fields_append_of_opens, named, fields_commaSeparated]
    rw [called, if_pos rfl, ← fields_commaSeparated, fields_printed readable]
    exact congrArg (fun rest => "call" :: "i32" :: "ptr" :: "..." :: _ :: rest) (List.append_nil _)
  · rw [callText_defined legible printer]
    simp (disch := decide) only [String.append_assoc, fields_append_of_closes,
      fields_append_between, fields_append_of_opens, named]
    rw [fields_typed (Operand.whole_texts readable), called, if_neg printer]
    exact congrArg (fun rest => "call" :: "i32" :: _ :: rest) (List.append_nil _)

theorem fields_opText (legible : module.Legible names defined) (readable : op.Legible) :
    fields (opText module op) = opFields op := by
  cases op with
  | arith op left right =>
    simp (disch := decide) only [opText, String.append_assoc, fields_append_of_closes,
      fields_append_between, op.whole_mnemonic.fields_eq, readable.1.whole.fields_eq,
      readable.2.whole.fields_eq]
    rfl
  | compare op left right =>
    simp (disch := decide) only [opText, String.append_assoc, fields_append_of_closes,
      fields_append_between, op.whole_mnemonic.fields_eq, readable.1.whole.fields_eq,
      readable.2.whole.fields_eq]
    rfl
  | widen value ty =>
    obtain ⟨known, rfl⟩ := readable
    simp (disch := decide) only [opText, String.append_assoc, fields_append_of_closes,
      fields_append_between, known.whole.fields_eq]
    rfl
  | slot ty =>
    obtain rfl := readable
    rw [opText, fields_append_of_closes (by decide)]
    rfl
  | load address =>
    rw [opText, fields_append_of_closes (by decide), (Operand.Legible.whole readable).fields_eq]
    rfl
  | store address value =>
    simp (disch := decide) only [opText, String.append_assoc, fields_append_of_closes,
      fields_append_between, readable.1.whole.fields_eq, readable.2.whole.fields_eq]
    rfl
  | call callee args => exact fields_callText legible readable.1 readable.2

theorem printed_injective : Function.Injective printed := by
  intro args args' same
  cases args <;> cases args'
  case nil.nil => rfl
  case cons.cons format args format' args' =>
    obtain ⟨first, others⟩ := List.cons.inj (List.cons.inj same).2
    rw [Operand.text_injective first, Operand.texts_injective (typed_injective others)]
  all_goals cases same

theorem called_injective {callee callee' : String} {args args' : List Operand}
    (same : called callee args = called callee' args') : callee = callee' ∧ args = args' := by
  have apart : ∀ name, "ptr" ≠ "@" ++ name := by
    intro name same
    simpa using congrArg (·.toList.head?) same
  by_cases printer : callee = printerName <;> by_cases printer' : callee' = printerName
  · simp only [called, if_pos printer, if_pos printer', List.cons.injEq, true_and] at same
    exact ⟨printer.trans printer'.symm, printed_injective same.2⟩
  · simp only [called, if_pos printer, if_neg printer', List.cons.injEq] at same
    exact absurd same.1 (apart callee')
  · simp only [called, if_neg printer, if_pos printer', List.cons.injEq] at same
    exact absurd same.1.symm (apart callee)
  · simp only [called, if_neg printer, if_neg printer', List.cons.injEq] at same
    exact ⟨(String.append_right_inj _).mp same.1,
      Operand.texts_injective (typed_injective same.2)⟩

theorem opFields_injective (readable : op.Legible) (readable' : op'.Legible)
    (same : opFields op = opFields op') : op = op' := by
  cases op <;> cases op' <;>
    simp only [opFields, List.cons.injEq, Operand.text_injective.eq_iff, String.reduceEq, false_and,
      and_false, reduceCtorEq, true_and, and_true] at same ⊢
  case arith.arith op _ _ op' _ _ =>
    obtain ⟨mnemonic, rfl, rfl⟩ := same
    rw [ArithOp.mnemonic_injective mnemonic]
  case compare.compare op _ _ op' _ _ =>
    obtain ⟨mnemonic, rfl, rfl⟩ := same
    rw [Condition.mnemonic_injective mnemonic]
  case widen.widen => rw [same, readable.2, readable'.2]
  case slot.slot => exact congrArg Op.slot (Eq.trans readable readable'.symm)
  case load.load => rw [same]
  case store.store => rw [same.1, same.2]
  case call.call =>
    obtain ⟨rfl, rfl⟩ := called_injective same
    rfl
  case arith.load op _ _ _ => exact op.mnemonic_ne.1 same.1
  case load.arith op _ _ => exact op.mnemonic_ne.1 same.1.symm
  case arith.call op _ _ _ _ => exact op.mnemonic_ne.2.2 same.1
  case call.arith op _ _ => exact op.mnemonic_ne.2.2 same.1.symm

theorem solid_printed {args : List Operand} (readable : ∀ arg ∈ args, arg.Legible) :
    ∀ field ∈ printed args, Solid field := by
  cases args with
  | nil => simp [printed]
  | cons format args =>
    obtain ⟨first, others⟩ := List.forall_mem_cons.mp readable
    exact List.forall_mem_cons.mpr ⟨by decide,
      List.forall_mem_cons.mpr ⟨first.whole.2, solid_typed (Operand.whole_texts others)⟩⟩

theorem solid_called {callee : String} {args : List Operand} (callable : Whole callee)
    (readable : ∀ arg ∈ args, arg.Legible) : ∀ field ∈ called callee args, Solid field := by
  have named : Solid ("@" ++ callee) := (Operand.whole_global callable.2).2
  unfold called
  split
  · simp only [List.forall_mem_cons]
    exact ⟨by decide, by decide, named, solid_printed readable⟩
  · exact List.forall_mem_cons.mpr ⟨named, solid_typed (Operand.whole_texts readable)⟩

theorem solid_opFields (readable : op.Legible) : ∀ field ∈ opFields op, Solid field := by
  cases op <;> simp only [opFields, List.forall_mem_cons]
  case arith op left right =>
    exact ⟨op.whole_mnemonic.2, by decide, readable.1.whole.2, readable.2.whole.2, by simp⟩
  case compare op left right =>
    exact ⟨by decide, op.whole_mnemonic.2, by decide, readable.1.whole.2, readable.2.whole.2, by simp⟩
  case widen value ty => exact ⟨by decide, by decide, readable.1.whole.2, by decide⟩
  case slot => decide
  case load address =>
    exact ⟨by decide, by decide, by decide, (Operand.Legible.whole readable).2, by simp⟩
  case store address value =>
    exact ⟨by decide, by decide, readable.2.whole.2, by decide, readable.1.whole.2, by simp⟩
  case call callee args => exact ⟨by decide, by decide, solid_called readable.1 readable.2⟩

/-- The fields of an instruction. -/
def instrFields (instr : Instr) : List String := resultFields instr.result ++ opFields instr.op

theorem fields_instrLine (legible : module.Legible names defined) (readable : instr.op.Legible) :
    fields (instrLine module instr) = instrFields instr := by
  rw [instrLine, instrFields, ← fields_opText legible readable]
  cases instr.result with
  | none => exact fields_append_of_closes (by decide)
  | some reg =>
    simp (disch := decide) only [String.append_assoc, fields_append_of_closes, fields_append_between,
      reg.whole.fields_eq]
    rfl

theorem solid_instrFields (readable : instr.op.Legible) :
    ∀ field ∈ instrFields instr, Solid field :=
  List.forall_mem_append.mpr ⟨solid_resultFields, solid_opFields readable⟩

theorem unassigned_opFields : Unassigned (opFields op) := by
  cases op with
  | arith op =>
    rintro _ ⟨⟩
    cases op <;> decide
  | compare | widen | slot | load | store | call =>
    rintro _ ⟨⟩
    decide

/-- An instruction is known by its line, whatever module it stands in. -/
theorem instrLine_injective (legible : module.Legible names defined)
    (legible' : module'.Legible names' defined') (readable : instr.op.Legible)
    (readable' : instr'.op.Legible) (same : instrLine module instr = instrLine module' instr') :
    instr = instr' := by
  have words := congrArg fields same
  rw [fields_instrLine legible readable, fields_instrLine legible' readable'] at words
  obtain ⟨result, op⟩ := resultFields_inj unassigned_opFields unassigned_opFields words
  exact Instr.eq_of_parts result (opFields_injective readable readable' op)

end Llvm

end OliCompiler.Ir
