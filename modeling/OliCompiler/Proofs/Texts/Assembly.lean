import OliCompiler.Proofs.Texts.Assembly.Blocks

/-!
LLVM assembly loses nothing of a module that can be read. Blank lines separate the globals and the
blocks of a function, and a closing brace ends each function.
-/

namespace OliCompiler.Ir

open Text

namespace Llvm

variable {module module' : Module} {names names' : List String} {defined defined' : List Function}
  {function function' : Function}

/-- The line that opens the definition of a function. -/
def heading (function : Function) : String :=
  "define " ++ function.result.text ++ " @" ++ function.name ++ "(" ++
    commaSeparated (function.params.map fun (reg, ty) => ty.text ++ " " ++ reg.text) ++ ") \x7b"

def headingFields (function : Function) : List String :=
  "define" :: "i32" :: ("@" ++ function.name) ::
    (typed ((function.params.map Prod.fst).map Reg.text) ++ ["\x7b"])

theorem fields_heading (inside : function.Legible) :
    fields (heading function) = headingFields function := by
  have params : function.params.map (fun (reg, ty) => ty.text ++ " " ++ reg.text) =
      ((function.params.map Prod.fst).map Reg.text).map ("i32 " ++ ·) := by
    rw [List.map_map, List.map_map]
    refine List.map_congr_left fun (reg, ty) member => ?_
    obtain rfl : ty = .i32 := inside.params _ member
    rfl
  have named := Operand.whole_global inside.name.2
  have written : "define " ++ Ty.i32.text ++ " @" ++ function.name =
      "define i32 " ++ (Operand.global function.name).text := @String.append_assoc "define i32 " "@" _
  rw [heading, params, inside.result, written]
  simp (disch := decide) only [String.append_assoc, fields_append_of_closes, fields_append_between,
    fields_append_of_opens, named.fields_eq]
  rw [fields_typed Reg.whole_texts]
  rfl

theorem solid_headingFields (inside : function.Legible) :
    ∀ field ∈ headingFields function, Solid field := by
  simp only [headingFields, List.forall_mem_cons, List.forall_mem_append]
  exact ⟨by decide, by decide, (Operand.whole_global inside.name.2).2, solid_typed Reg.whole_texts,
    by decide, by simp⟩

theorem heading_inj (inside : function.Legible) (inside' : function'.Legible)
    (same : heading function = heading function') :
    function.name = function'.name ∧ function.params.map Prod.fst = function'.params.map Prod.fst := by
  have words := congrArg fields same
  rw [fields_heading inside, fields_heading inside'] at words
  simp only [headingFields, List.cons.injEq, true_and, List.append_left_inj] at words
  exact ⟨(String.append_right_inj _).mp words.1, Reg.texts_injective (typed_injective words.2)⟩

/-- The lines of the definition of a function, without the one that closes it. -/
def opened (module : Module) (function : Function) : List String :=
  "" :: heading function :: [""].intercalate (function.blocks.map (blockLines module function))

/-- A function is known by its lines. -/
theorem opened_injective (legible : module.Legible names defined)
    (legible' : module'.Legible names' defined') (inside : function.Legible)
    (inside' : function'.Legible) (same : opened module function = opened module' function') :
    function = function' := by
  simp only [opened, List.cons.injEq, true_and] at same
  obtain ⟨name, params⟩ := heading_inj inside inside' same.1
  have blank : ∀ lines ∈ function.blocks.map (blockLines module function), "" ∉ lines :=
    List.forall_mem_map.mpr fun block member => (blockLines_ne (inside.blocks block member)).1
  have blank' : ∀ lines ∈ function'.blocks.map (blockLines module' function'), "" ∉ lines :=
    List.forall_mem_map.mpr fun block member => (blockLines_ne (inside'.blocks block member)).1
  have split := congrArg (List.splitOn "") same.2
  rw [List.splitOn_intercalate "" blank (by simpa using inside.entered),
    List.splitOn_intercalate "" blank' (by simpa using inside'.entered)] at split
  have blocks := eq_of_map_eq split fun block member block' listed =>
    blockLines_injective legible legible' inside inside' (inside.blocks block member)
      (inside'.blocks block' listed)
  exact inside.eq_of_parts inside' name params blocks

theorem closing_not_mem (inside : function.Legible) : "\x7d" ∉ opened module function := by
  have head : "\x7d" ≠ heading function := by
    intro same
    simpa [heading] using congrArg (·.toList.head?) same
  simp only [opened, List.mem_cons, not_or]
  refine ⟨by decide, head, fun member => ?_⟩
  rcases eq_or_mem_of_mem_intercalate member with same | ⟨lines, listed, inner⟩
  · exact absurd same (by decide)
  · obtain ⟨block, present, rfl⟩ := List.mem_map.mp listed
    exact (blockLines_ne (inside.blocks block present)).2 inner

theorem unbroken_opened (legible : module.Legible names defined) (inside : function.Legible) :
    ∀ line ∈ opened module function, Unbroken line := by
  have head : Unbroken (heading function) := by
    apply unbroken_of_fields
    rw [fields_heading inside]
    exact solid_headingFields inside
  refine List.forall_mem_cons.mpr ⟨by decide, List.forall_mem_cons.mpr ⟨head, fun line member => ?_⟩⟩
  rcases eq_or_mem_of_mem_intercalate member with rfl | ⟨lines, listed, inner⟩
  · decide
  · obtain ⟨block, present, rfl⟩ := List.mem_map.mp listed
    exact unbroken_blockLines legible inside (inside.blocks block present) line inner

theorem globalLine_zeroGlobal (name : String) :
    globalLine (Lower.zeroGlobal name) = "@" ++ name ++ " = " ++ "internal global i32 0" := by
  have zero : "internal " ++ "global " ++ Ty.i32.text ++ " " ++ toString (0 : Int32).toInt =
      "internal global i32 0" := by decide
  exact congrArg ("@" ++ name ++ " = " ++ ·) zero

theorem globalLine_injective : Function.Injective fun name => globalLine (Lower.zeroGlobal name) := by
  intro name name' same
  simp only [globalLine_zeroGlobal, String.append_left_inj, String.append_right_inj] at same
  exact same

/-- The lines of the globals. -/
def globalLines (names : List String) : List String :=
  globalLine Lower.formatGlobal :: names.map fun name => globalLine (Lower.zeroGlobal name)

theorem globalLines_ne (names : List String) : "" ∉ globalLines names := by
  have some : ∀ line ∈ globalLines names, line ≠ "" := by
    refine List.forall_mem_cons.mpr ⟨by decide +kernel, List.forall_mem_map.mpr fun name _ same => ?_⟩
    rw [globalLine_zeroGlobal] at same
    simpa using congrArg (·.toList.head?) same
  exact fun member => some _ member rfl

theorem unbroken_globalLines (spelled : ∀ name ∈ names, Whole name) :
    ∀ line ∈ globalLines names, Unbroken line := by
  refine List.forall_mem_cons.mpr ⟨by decide +kernel, List.forall_mem_map.mpr fun name member => ?_⟩
  simp only [globalLine_zeroGlobal, unbroken_append]
  exact ⟨⟨⟨by decide, (spelled name member).2.unbroken⟩, by decide⟩, by decide⟩

theorem llvmLines_eq (legible : module.Legible names defined) :
    module.llvmLines = ("; ModuleID = '" ++ module.name ++ "'") ::
      ("source_filename = \"" ++ module.name ++ "\"") :: "" ::
      (globalLines names ++ "" :: declareLine Lower.printer ::
        (defined.map (opened module)).flatMap (· ++ ["\x7d"])) := by
  have external := fun function member => (legible.readable function member).external
  have externals : module.functions.filter (·.external) = [Lower.printer] := by
    rw [legible.functions, List.filter_cons_of_pos rfl,
      List.filter_eq_nil_iff.mpr (by simpa using external)]
  have inside : module.functions.filter (!·.external) = defined := by
    rw [legible.functions, List.filter_cons_of_neg (by decide),
      List.filter_eq_self.mpr (by simpa using external)]
  have globals : module.globals.map globalLine = globalLines names := by
    rw [legible.globals, List.map_cons, List.map_map]
    rfl
  have bodies : defined.flatMap (defineLines module) =
      (defined.map (opened module)).flatMap (· ++ ["\x7d"]) := by
    rw [List.flatMap_map]
    rfl
  simp only [Module.llvmLines, externals, inside, globals, bodies]
  simp [section?, globalLines]

theorem unbroken_llvmLines (legible : module.Legible names defined) :
    ∀ line ∈ module.llvmLines, Unbroken line := by
  have named := legible.name.2.unbroken
  rw [llvmLines_eq legible]
  simp only [List.forall_mem_cons, List.forall_mem_append, unbroken_append, List.forall_mem_flatMap,
    List.forall_mem_map]
  exact ⟨⟨⟨by decide, named⟩, by decide⟩, ⟨⟨by decide, named⟩, by decide⟩, by decide,
    unbroken_globalLines legible.spelled, by decide, by decide, fun function member =>
      ⟨unbroken_opened legible (legible.readable function member), by decide, by simp⟩⟩

end Llvm

variable {module module' : Module} {names names' : List String} {defined defined' : List Function}

/-- Modules that can be read are equal if their assembly is. -/
theorem Module.Legible.llvm_inj (legible : module.Legible names defined)
    (legible' : module'.Legible names' defined') (same : module.llvm = module'.llvm) :
    module = module' := by
  have lines := unlines_inj (Llvm.unbroken_llvmLines legible) (Llvm.unbroken_llvmLines legible') same
  rw [Llvm.llvmLines_eq legible, Llvm.llvmLines_eq legible'] at lines
  simp only [List.cons.injEq, String.append_left_inj, String.append_right_inj, true_and] at lines
  obtain ⟨name, _, lines⟩ := lines
  obtain ⟨ofGlobals, lines⟩ :=
    split_inj (Llvm.globalLines_ne names) (Llvm.globalLines_ne names') lines
  have globals := (List.map_inj_right Llvm.globalLine_injective).mp (List.cons.inj ofGlobals).2
  have bodies := ended_inj
    (List.forall_mem_map.mpr fun function member =>
      Llvm.closing_not_mem (legible.readable function member))
    (List.forall_mem_map.mpr fun function member =>
      Llvm.closing_not_mem (legible'.readable function member))
    (List.cons.inj lines).2
  have functions := eq_of_map_eq bodies fun function member function' listed =>
    Llvm.opened_injective legible legible' (legible.readable function member)
      (legible'.readable function' listed)
  exact legible.eq_of_parts legible' name globals functions

end OliCompiler.Ir
