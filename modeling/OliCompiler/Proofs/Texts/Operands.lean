import OliCompiler.Proofs.Texts.Fields
import OliCompiler.Proofs.Verifier.Pieces

/-!
The smallest texts of intermediate code: numbers, registers, operands and labels. Each is one field of
its line, and no two things have the same text.
-/

namespace OliCompiler

open Text

section

variable {number : Nat} {value : Int} {c : Char}

theorem isDigit_of_mem_toString (member : c ∈ (toString number).toList) : c.isDigit = true := by
  rw [Nat.toString_eq_ofList_toDigits, String.toList_ofList] at member
  exact Nat.isDigit_of_mem_toDigits (by decide) (Nat.le_refl 10) member

theorem toString_ne_empty : toString number ≠ "" := by
  rw [Nat.toString_eq_ofList_toDigits]
  simp

theorem whole_toString (number : Nat) : Whole (toString number) :=
  ⟨toString_ne_empty, solid_of_forall (fun _ => isDigit_of_mem_toString) (by decide)⟩

theorem whole_toString_int (value : Int) : Whole (toString value) := by
  cases value with
  | ofNat number => exact whole_toString number
  | negSucc number => exact Whole.append (by decide) (whole_toString (number + 1)).2

theorem toString_injective : Function.Injective (toString : Nat → String) := by
  intro a b same
  rw [Nat.toString_eq_ofList_toDigits, Nat.toString_eq_ofList_toDigits] at same
  exact Ir.toDigits_injective (congrArg List.reverse (String.ofList_injective same))

theorem isDigit_of_head?_toString (head : (toString number).toList.head? = some c) :
    c.isDigit = true :=
  isDigit_of_mem_toString (List.mem_of_mem_head? head)

/-- An integer starts with a digit or a minus sign. -/
theorem head?_toString_int (head : (toString value).toList.head? = some c) :
    c.isDigit = true ∨ c = '-' := by
  cases value with
  | ofNat number => exact .inl (isDigit_of_head?_toString head)
  | negSucc number =>
    have sign : ("-" ++ toString (number + 1)).toList.head? = some '-' := by
      rw [String.toList_append]
      rfl
    exact .inr (Option.some.inj (head.symm.trans sign))

theorem toString_int_injective : Function.Injective (toString : Int → String) := by
  have apart : ∀ a b : Nat, toString a ≠ "-" ++ toString b := by
    intro a b same
    have sign : '-' ∈ (toString a).toList := by
      rw [same, String.toList_append]
      exact List.mem_cons_self
    cases isDigit_of_mem_toString sign
  intro a b same
  cases a with
  | ofNat a =>
    cases b with
    | ofNat b => exact congrArg Int.ofNat (toString_injective same)
    | negSucc b => exact absurd same (apart a (b + 1))
  | negSucc a =>
    cases b with
    | ofNat b => exact absurd same.symm (apart b (a + 1))
    | negSucc b => exact congrArg Int.negSucc (Nat.succ.inj
        (toString_injective ((String.append_right_inj "-").mp same)))

end

namespace Ir

theorem ArithOp.mnemonic_injective : Function.Injective ArithOp.mnemonic := by
  intro a b same
  cases a <;> cases b <;> simp [mnemonic] at same ⊢

theorem Condition.mnemonic_injective : Function.Injective Condition.mnemonic := by
  intro a b same
  cases a <;> cases b <;> simp [mnemonic] at same ⊢

theorem ArithOp.whole_mnemonic (op : ArithOp) : Whole op.mnemonic := by
  cases op <;> decide

theorem Condition.whole_mnemonic (op : Condition) : Whole op.mnemonic := by
  cases op <;> decide

/-- No operator is written like another operation. -/
theorem ArithOp.mnemonic_ne (op : ArithOp) :
    op.mnemonic ≠ "load" ∧ op.mnemonic ≠ "store" ∧ op.mnemonic ≠ "call" := by
  cases op <;> decide

theorem Reg.text_injective : Function.Injective Reg.text := by
  rintro ⟨a⟩ ⟨b⟩ same
  exact congrArg Reg.mk (toString_injective ((String.append_right_inj _).mp same))

theorem Reg.whole (reg : Reg) : Whole reg.text :=
  Whole.append (by decide) (whole_toString reg.index).2

theorem Reg.texts_injective : Function.Injective (List.map Reg.text) := fun _ _ =>
  (List.map_inj_right fun _ _ same => Reg.text_injective same).mp

theorem Reg.whole_texts {regs : List Reg} : ∀ item ∈ regs.map Reg.text, Whole item :=
  List.forall_mem_map.mpr fun reg _ => reg.whole

/-- The fields in front of an operation whose result goes to a register. -/
def resultFields : Option Reg → List String
  | some reg => [reg.text, "="]
  | none => []

theorem solid_resultFields {result : Option Reg} : ∀ field ∈ resultFields result, Solid field := by
  cases result with
  | none => simp [resultFields]
  | some reg => exact List.forall_mem_cons.mpr ⟨reg.whole.2, by decide⟩

/-- Whether some fields do not start with a register. -/
def Unassigned (words : List String) : Prop := ∀ word ∈ words.head?, word.toList.head? ≠ some '%'

theorem Unassigned.ne {words others : List String} (unassigned : Unassigned words) (reg : Reg) :
    reg.text :: others ≠ words := by
  rintro rfl
  exact unassigned reg.text rfl (by simp [Reg.text])

theorem resultFields_inj {result result' : Option Reg} {words words' : List String}
    (unassigned : Unassigned words) (unassigned' : Unassigned words')
    (same : resultFields result ++ words = resultFields result' ++ words') :
    result = result' ∧ words = words' := by
  cases result <;> cases result'
  case none.none => exact ⟨rfl, same⟩
  case none.some reg => exact absurd same.symm (unassigned.ne reg)
  case some.none reg => exact absurd same (unassigned'.ne reg)
  case some.some =>
    simp only [resultFields, List.cons_append, List.cons.injEq, List.nil_append, true_and] at same
    exact ⟨congrArg some (Reg.text_injective same.1), same.2⟩

namespace Operand

/-- Whether the text of an operand is one field. -/
def Legible : Operand → Prop
  | .reg _ | .int _ => True
  | .global name => Solid name

theorem Legible.whole {operand : Operand} (legible : operand.Legible) : Whole operand.text := by
  cases operand with
  | reg register => exact register.whole
  | int value => exact whole_toString_int value.toInt
  | global name => exact Whole.append (by decide) legible

theorem whole_texts {operands : List Operand} (legible : ∀ operand ∈ operands, operand.Legible) :
    ∀ item ∈ operands.map text, Whole item :=
  List.forall_mem_map.mpr fun operand member => (legible operand member).whole

theorem whole_global {name : String} (solid : Solid name) : Whole (global name).text :=
  Whole.append (by decide) solid

/-- The character that tells registers, integers and globals apart. -/
theorem head?_text : ∀ operand : Operand, ∃ c, operand.text.toList.head? = some c ∧
    match operand with
    | .reg _ => c = '%'
    | .global _ => c = '@'
    | .int _ => c ≠ '%' ∧ c ≠ '@'
  | .reg register => ⟨'%', by simp [text, Reg.text], rfl⟩
  | .global name => ⟨'@', by simp [text], rfl⟩
  | .int value => by
    obtain ⟨c, others, chars⟩ := List.exists_cons_of_ne_nil
      (mt String.toList_eq_nil_iff.mp (whole_toString_int value.toInt).1)
    have head : (toString value.toInt).toList.head? = some c := by rw [chars]; rfl
    refine ⟨c, head, ?_⟩
    constructor <;> rintro rfl <;> exact absurd (head?_toString_int head) (by decide)

theorem text_injective : Function.Injective text := by
  intro a b same
  obtain ⟨c, first, kind⟩ := head?_text a
  obtain ⟨d, second, kind'⟩ := head?_text b
  obtain rfl : c = d := by
    rw [same, second] at first
    exact (Option.some.inj first).symm
  cases a <;> cases b <;> simp only [ne_eq] at kind kind'
  case reg.reg a b => exact congrArg _ (Reg.text_injective same)
  case int.int a b => exact congrArg _ (Int32.toInt_inj.mp (toString_int_injective same))
  case global.global a b => exact congrArg _ ((String.append_right_inj _).mp same)
  all_goals simp [kind, kind'] at *

theorem texts_injective : Function.Injective (List.map text) := fun _ _ =>
  (List.map_inj_right text_injective).mp

end Operand

/-- The fields of items of which each has its type in front. -/
def typed (items : List String) : List String := items.flatMap fun item => ["i32", item]

theorem typed_injective : Function.Injective typed := by
  intro items items' same
  induction items generalizing items' with
  | nil =>
    cases items' with
    | nil => rfl
    | cons => cases same
  | cons item items ih =>
    cases items' with
    | nil => cases same
    | cons item' items' =>
      simp only [typed, List.flatMap_cons, List.cons_append, List.nil_append, List.cons.injEq,
        true_and] at same
      rw [same.1, ih same.2]

theorem fields_typed {items : List String} (whole : ∀ item ∈ items, Whole item) :
    fields (commaSeparated (items.map ("i32 " ++ ·))) = typed items := by
  rw [fields_commaSeparated, List.flatMap_map, typed]
  refine List.flatMap_congr fun item member => ?_
  rw [fields_append_of_closes (by decide), (whole item member).fields_eq]
  rfl

theorem solid_typed {items : List String} (whole : ∀ item ∈ items, Whole item) :
    ∀ field ∈ typed items, Solid field := by
  simp only [typed, List.mem_flatMap]
  rintro field ⟨item, member, listed⟩
  rcases List.mem_cons.mp listed with rfl | listed
  · decide
  · exact List.mem_singleton.mp listed ▸ (whole item member).2

/-- The number at the end of a label can be told from the hint. -/
theorem label_inj {hint hint' : String} {number number' : Nat} (undigited : Undigited hint)
    (undigited' : Undigited hint')
    (same : hint ++ toString number = hint' ++ toString number') :
    hint = hint' ∧ number = number' := by
  have digits := congrArg trailing same
  rw [trailing_append undigited, trailing_append undigited'] at digits
  obtain rfl := toDigits_injective digits
  exact ⟨(String.append_left_inj _).mp same, rfl⟩

end Ir

end OliCompiler
