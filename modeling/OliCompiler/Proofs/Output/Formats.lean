import OliCompiler.Proofs.Output

/-!
What the printer prints. A format is read from left to right as a row of parts, each a character, a
percent sign written twice or an integer to be filled in; the integers are the arguments, in order, and
those left over do not matter. A format that no such row spells is refused, and nothing is printed.
-/

namespace OliCompiler.Machine

open Ir

/-- A part of a format, with the integer that is filled in. -/
inductive FormatPart where
  | plain (c : Char) (other : c ≠ '%')
  | percent
  | integer (value : Int32)
deriving DecidableEq, Repr

namespace FormatPart

/-- How the format spells the part. -/
def spelled : FormatPart → List Char
  | plain c _ => [c]
  | percent => ['%', '%']
  | integer _ => ['%', 'd']

/-- The argument that the part takes, if it takes one. -/
def argument? : FormatPart → Option Value
  | plain _ _ => none
  | percent => none
  | integer value => some (.int value)

/-- What is printed for the part. -/
def written : FormatPart → List Char
  | plain c _ => [c]
  | percent => ['%']
  | integer value => (toString value.toInt).toList

end FormatPart

/-- Whether a format and its arguments spell a row of parts. -/
structure Spells (format : List Char) (args : List Value) (parts : List FormatPart) : Prop where
  format : format = parts.flatMap FormatPart.spelled
  args : parts.filterMap FormatPart.argument? <+: args

variable {format : List Char} {args : List Value} {parts : List FormatPart} {c : Char}

namespace Spells

theorem nil (args : List Value) : Spells [] args [] := ⟨rfl, List.nil_prefix⟩

theorem plain (spells : Spells format args parts) (other : c ≠ '%') :
    Spells (c :: format) args (.plain c other :: parts) :=
  ⟨congrArg (c :: ·) spells.format, spells.args⟩

theorem percent (spells : Spells format args parts) :
    Spells ('%' :: '%' :: format) args (.percent :: parts) :=
  ⟨congrArg ('%' :: '%' :: ·) spells.format, spells.args⟩

theorem integer (spells : Spells format args parts) (value : Int32) :
    Spells ('%' :: 'd' :: format) (.int value :: args) (.integer value :: parts) :=
  ⟨congrArg ('%' :: 'd' :: ·) spells.format, List.cons_prefix_cons.mpr ⟨rfl, spells.args⟩⟩

end Spells

theorem expand_plain (other : c ≠ '%') : expand (c :: format) args = (expand format args).map (c :: ·) := by
  rw [expand, if_neg other]
  · exact fun _ percent => absurd percent other
  · exact fun _ _ _ _ percent => absurd percent other

theorem expand_of_spells (spells : Spells format args parts) :
    expand format args = some (parts.flatMap FormatPart.written) := by
  obtain ⟨rfl, surplus, rfl⟩ := spells
  induction parts with
  | nil => rfl
  | cons part parts ih =>
    cases part with
    | plain c other => exact (expand_plain other).trans (congrArg (Option.map _) ih)
    | percent => exact congrArg (Option.map _) ih
    | integer value => exact congrArg (Option.map _) ih

/-- What a format expands to was spelled by it. -/
theorem spells_of_expand {output : List Char} (expanded : expand format args = some output) :
    ∃ parts, Spells format args parts := by
  fun_induction expand format args generalizing output with
  | case1 args => exact ⟨[], .nil args⟩
  | case2 args format ih =>
    obtain ⟨output, expanded, -⟩ := Option.map_eq_some_iff.mp expanded
    obtain ⟨parts, spells⟩ := ih expanded
    exact ⟨_, spells.percent⟩
  | case3 format value args ih =>
    obtain ⟨output, expanded, -⟩ := Option.map_eq_some_iff.mp expanded
    obtain ⟨parts, spells⟩ := ih expanded
    exact ⟨_, spells.integer value⟩
  | case4 => cases expanded
  | case5 c format args _ _ other ih =>
    obtain ⟨output, expanded, -⟩ := Option.map_eq_some_iff.mp expanded
    obtain ⟨parts, spells⟩ := ih expanded
    exact ⟨_, spells.plain other⟩

/-- What is printed for a row of parts. -/
def written (parts : List FormatPart) : String := String.ofList (parts.flatMap FormatPart.written)

variable {image : Image} {maxDepth depth : Nat} {store : Store} {routine : Routine} {global : Global}
  {name text : String}

theorem printed_of_spells {module : Module} (format : formatOf module args.head? = text)
    (spells : Spells text.toList args.tail parts) : printed module args = .ok (written parts) := by
  unfold printed
  dsimp only
  rw [format, expand_of_spells spells]
  rfl

theorem printed_of_illegible {module : Module} (format : formatOf module args.head? = text)
    (illegible : ¬∃ parts, Spells text.toList args.tail parts) :
    printed module args = .error (.unsupportedFormat text) := by
  unfold printed
  dsimp only
  rw [format]
  cases expanded : expand text.toList args.tail with
  | none => rfl
  | some output => exact absurd (spells_of_expand expanded) illegible

theorem enter_printer (found : image.routine? printerName = some routine)
    (external : routine.function.external = true) : enter image maxDepth store depth printerName args =
      (printed image.module args).map fun text =>
        (.returned (.int (Int32.ofNat text.utf8ByteSize)), store.print text) := by
  rw [enter, found]
  dsimp only
  rw [if_pos external, if_pos rfl]
  rfl

variable {config : Config} {result : Option Reg} {operands : List Operand} {todo : List Instr}

/-- The printer prints exactly if the format and the arguments spell a row of parts. It gives the number
of bytes printed; where it prints nothing, it fails, and the store is left as it was. -/
theorem step_printer (next : config.frame.todo = ⟨result, .call printerName operands⟩ :: todo)
    (computed : config.frame.operands operands = .ok (.ptr (.global name) :: args))
    (found : image.routine? printerName = some routine) (external : routine.function.external = true)
    (known : image.module.global? name = some global) (constant : global.init = .text text) :
    ((∃ after, config.step image maxDepth = .ok after) ↔ ∃ parts, Spells text.toList args parts) ∧
    (∀ parts, Spells text.toList args parts → ∃ length : Int32,
      config.step image maxDepth = .ok (.running ⟨(config.frame.goOn todo).assign result (.int length),
        config.callers, config.store.print (written parts)⟩) ∧
      length = Int32.ofNat (written parts).utf8ByteSize ∧
      ((written parts).utf8ByteSize < 2147483648 → length.toInt = (written parts).utf8ByteSize)) ∧
    ((¬∃ parts, Spells text.toList args parts) →
      config.step image maxDepth = .error (.unsupportedFormat text) ∧
      ∀ steps, leftBy image maxDepth steps config = config.store) := by
  have format : formatOf image.module (some (.ptr (.global name))) = text := by
    simp only [formatOf, known, constant]
  have step := @step_call image maxDepth _ _ _ _ _ _ next computed
  rw [enter_printer found external] at step
  have printed : ∀ parts, Spells text.toList args parts → config.step image maxDepth = .ok (.running
      ⟨(config.frame.goOn todo).assign result (.int (Int32.ofNat (written parts).utf8ByteSize)),
        config.callers, config.store.print (written parts)⟩) := by
    intro parts spells
    rw [step, printed_of_spells format spells]
    rfl
  have failed : (¬∃ parts, Spells text.toList args parts) →
      config.step image maxDepth = .error (.unsupportedFormat text) := by
    intro illegible
    rw [step, printed_of_illegible format illegible]
    rfl
  refine ⟨⟨fun ⟨after, stepped⟩ => ?_, fun ⟨parts, spells⟩ => ⟨_, printed parts spells⟩⟩,
    fun parts spells => ⟨_, printed parts spells, rfl, fun short => ?_⟩,
    fun illegible => ⟨failed illegible, fun steps => ?_⟩⟩
  · refine Classical.byContradiction fun illegible => ?_
    rw [failed illegible] at stepped
    cases stepped
  · exact Int32.toInt_ofNat_of_lt short
  · cases steps with
    | zero => rfl
    | succ steps =>
      unfold leftBy
      rw [failed illegible]

section

private def externalPrinter : Ir.Function := ⟨printerName, [], .i32, [], true, true⟩

private def caller (operands : List Operand) : Block :=
  ⟨⟨0⟩, none, [⟨some ⟨0⟩, .call printerName operands⟩], some (.ret (.reg ⟨0⟩))⟩

/-- A module with two formats. -/
def formats : Module where
  name := entryName
  globals := [⟨"a", .array .i8 11, .text "é%%d=%d%%", true⟩, ⟨"b", .array .i8 4, .text "%d%", true⟩]
  functions := [externalPrinter]

/-- A configuration that calls the printer next. -/
def printing (operands : List Operand) : Config :=
  ⟨⟨.ofFunction externalPrinter, caller operands, (caller operands).instrs, ∅, 0, 0⟩, [], .initial formats⟩

/-- A percent sign that is written twice takes no argument, and one at the end spoils the format. -/
theorem step_printer_formats :
    (∃ after, (printing [.global "a", .int (-12), .int 4]).step (.ofModule formats) 1 = .ok (.running after) ∧
      after.store.output = "é%d=-12%") ∧
    (printing [.global "b", .int 7]).step (.ofModule formats) 1 = .error (.unsupportedFormat "%d%") := by
  have first : Spells "é%%d=%d%%".toList [.int (-12), .int 4]
      [.plain 'é' (by decide), .percent, .plain 'd' (by decide), .plain '=' (by decide), .integer (-12),
        .percent] := ⟨by decide, by decide⟩
  have second : ¬∃ parts, Spells "%d%".toList [.int 7] parts := by
    rintro ⟨parts, spells⟩
    have refused : expand "%d%".toList [.int 7] = none := by decide
    rw [expand_of_spells spells] at refused
    cases refused
  have known : (Image.ofModule formats).routine? printerName = some (.ofFunction externalPrinter) := by
    rw [Image.routine?_ofModule]
    rfl
  constructor
  · have prints := @step_printer _ _ 1 _ _ _ _ (printing [.global "a", .int (-12), .int 4]) _ _ _ rfl rfl known
      rfl rfl rfl
    obtain ⟨length, stepped, -, -⟩ := prints.2.1 _ first
    exact ⟨_, stepped, rfl⟩
  · have fails := @step_printer _ _ 1 _ _ _ _ (printing [.global "b", .int 7]) _ _ _ rfl rfl known rfl rfl rfl
    exact (fails.2.2 second).1

end

end OliCompiler.Machine
