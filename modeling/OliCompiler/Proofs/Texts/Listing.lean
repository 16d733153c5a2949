import OliCompiler.Ir.Listing
import OliCompiler.Proofs.Texts.Legible

/-!
The listing loses nothing of a module that can be read. A blank line stands behind the globals and
behind each function, and the line that opens a block is indented less than those inside.
-/

namespace OliCompiler.Ir

open Text

/-- The fields of an operation in the listing. -/
def Op.listed : Op → List String
  | arith op left right => [op.mnemonic, left.text, right.text]
  | compare op left right => ["icmp", op.mnemonic, left.text, right.text]
  | widen value _ => ["zext", value.text, "to", "i32"]
  | slot _ => ["alloca", "i32"]
  | load address => ["load", address.text]
  | store address value => ["store", address.text, value.text]
  | call callee args => "call" :: callee :: args.map Operand.text

namespace Op

variable {op op' : Op}

theorem fields_listing (readable : op.Legible) : fields op.listing = op.listed := by
  cases op with
  | arith op left right =>
    simp (disch := decide) only [listing, String.append_assoc, fields_append_of_closes,
      fields_append_between, op.whole_mnemonic.fields_eq, readable.1.whole.fields_eq,
      readable.2.whole.fields_eq]
    rfl
  | compare op left right =>
    simp (disch := decide) only [listing, String.append_assoc, fields_append_of_closes,
      fields_append_between, op.whole_mnemonic.fields_eq, readable.1.whole.fields_eq,
      readable.2.whole.fields_eq]
    rfl
  | widen value ty =>
    obtain ⟨known, rfl⟩ := readable
    simp (disch := decide) only [listing, String.append_assoc, fields_append_of_closes,
      fields_append_between, known.whole.fields_eq]
    rfl
  | slot ty =>
    obtain rfl := readable
    rw [listing, fields_append_of_closes (by decide)]
    rfl
  | load address =>
    rw [listing, fields_append_of_closes (by decide), (Operand.Legible.whole readable).fields_eq]
    rfl
  | store address value =>
    simp (disch := decide) only [listing, String.append_assoc, fields_append_of_closes,
      fields_append_between, readable.1.whole.fields_eq, readable.2.whole.fields_eq]
    rfl
  | call callee args =>
    have items : (args.map Operand.text).flatMap fields = args.map Operand.text := by
      rw [List.flatMap_map, List.map_eq_flatMap]
      exact List.flatMap_congr fun arg member => (readable.2 arg member).whole.fields_eq
    simp (disch := decide) only [listing, String.append_assoc, fields_append_of_closes,
      fields_append_between, fields_append_of_opens, readable.1.fields_eq, fields_commaSeparated, items]
    exact congrArg (fun rest => "call" :: callee :: rest) (List.append_nil _)

theorem solid_listed (readable : op.Legible) : ∀ field ∈ op.listed, Solid field := by
  cases op <;> simp only [listed, List.forall_mem_cons]
  case arith op left right =>
    exact ⟨op.whole_mnemonic.2, readable.1.whole.2, readable.2.whole.2, by simp⟩
  case compare op left right =>
    exact ⟨by decide, op.whole_mnemonic.2, readable.1.whole.2, readable.2.whole.2, by simp⟩
  case widen value ty => exact ⟨by decide, readable.1.whole.2, by decide⟩
  case slot => decide
  case load address => exact ⟨by decide, (Operand.Legible.whole readable).2, by simp⟩
  case store address value =>
    exact ⟨by decide, readable.1.whole.2, readable.2.whole.2, by simp⟩
  case call callee args =>
    exact ⟨by decide, readable.1.2,
      fun item member => (Operand.whole_texts readable.2 item member).2⟩

theorem listed_injective (readable : op.Legible) (readable' : op'.Legible)
    (same : op.listed = op'.listed) : op = op' := by
  cases op <;> cases op' <;>
    simp only [listed, List.cons.injEq, Operand.text_injective.eq_iff, String.reduceEq, false_and,
      and_false, reduceCtorEq, true_and, and_true] at same ⊢
  case arith.arith op _ _ op' _ _ =>
    obtain ⟨mnemonic, rfl, rfl⟩ := same
    rw [ArithOp.mnemonic_injective mnemonic]
  case compare.compare op _ _ op' _ _ =>
    obtain ⟨mnemonic, rfl, rfl⟩ := same
    rw [Condition.mnemonic_injective mnemonic]
  case widen.widen => rw [same, readable.2, readable'.2]
  case slot.slot => exact congrArg Op.slot (Eq.trans readable readable'.symm)
  case load.load => rw [same]
  case store.store => rw [same.1, same.2]
  case call.call => rw [same.1, Operand.texts_injective same.2]
  case arith.store op _ _ _ _ => exact op.mnemonic_ne.2.1 same.1
  case store.arith op _ _ => exact op.mnemonic_ne.2.1 same.1.symm
  case arith.call op _ _ _ _ => exact op.mnemonic_ne.2.2 same.1
  case call.arith op _ _ => exact op.mnemonic_ne.2.2 same.1.symm

theorem unassigned_listed : Unassigned op.listed := by
  cases op with
  | arith op =>
    rintro _ ⟨⟩
    cases op <;> decide
  | compare | widen | slot | load | store | call =>
    rintro _ ⟨⟩
    decide

end Op

namespace Instr

variable {instr instr' : Instr}

theorem fields_listing (readable : instr.op.Legible) :
    fields instr.listing = resultFields instr.result ++ instr.op.listed := by
  rw [listing, ← Op.fields_listing readable]
  cases instr.result with
  | none => exact congrArg fields String.empty_append
  | some reg =>
    simp (disch := decide) only [assigned, String.append_assoc, fields_append_between,
      fields_append_of_closes, reg.whole.fields_eq]
    rfl

/-- An instruction is known by its text. -/
theorem listing_injective (readable : instr.op.Legible) (readable' : instr'.op.Legible)
    (same : instr.listing = instr'.listing) : instr = instr' := by
  have words := congrArg fields same
  rw [fields_listing readable, fields_listing readable'] at words
  obtain ⟨result, op⟩ := resultFields_inj Op.unassigned_listed Op.unassigned_listed words
  exact eq_of_parts result (Op.listed_injective readable readable' op)

theorem solid_listing (readable : instr.op.Legible) :
    ∀ field ∈ fields instr.listing, Solid field := by
  rw [fields_listing readable, List.forall_mem_append]
  exact ⟨solid_resultFields, Op.solid_listed readable⟩

end Instr

namespace BlockId

theorem whole (id : BlockId) : Whole id.text :=
  Whole.append (by decide) (whole_toString id.index).2

theorem text_injective : Function.Injective text := by
  rintro ⟨a⟩ ⟨b⟩ same
  exact congrArg mk (toString_injective ((String.append_right_inj _).mp same))

end BlockId

namespace Terminator

variable {terminator terminator' : Terminator}

/-- The fields of a terminator in the listing. -/
def listed : Terminator → List String
  | ret value => ["ret", value.text]
  | jump target => ["br", target.text]
  | branch condition yes no => ["br", condition.text, yes.text, no.text]
  | unreachable => ["unreachable"]

theorem fields_listing (readable : terminator.Legible) :
    fields terminator.listing = terminator.listed := by
  cases terminator with
  | ret value =>
    have whole : Whole value.text := Operand.Legible.whole readable
    rw [listing, fields_append_of_closes (by decide), whole.fields_eq]
    rfl
  | jump target =>
    rw [listing, fields_append_of_closes (by decide), target.whole.fields_eq]
    rfl
  | branch condition yes no =>
    have whole : Whole condition.text := Operand.Legible.whole readable
    simp (disch := decide) only [listing, String.append_assoc, fields_append_of_closes,
      fields_append_between, whole.fields_eq, yes.whole.fields_eq, no.whole.fields_eq]
    rfl
  | unreachable => rfl

theorem solid_listed (readable : terminator.Legible) :
    ∀ field ∈ terminator.listed, Solid field := by
  cases terminator <;> simp only [listed, List.forall_mem_cons]
  case ret value =>
    have whole : Whole value.text := Operand.Legible.whole readable
    exact ⟨by decide, whole.2, by simp⟩
  case jump target => exact ⟨by decide, target.whole.2, by simp⟩
  case branch condition yes no =>
    have whole : Whole condition.text := Operand.Legible.whole readable
    exact ⟨by decide, whole.2, yes.whole.2, no.whole.2, by simp⟩
  case unreachable => decide

theorem listed_injective : Function.Injective listed := by
  intro terminator terminator' same
  cases terminator <;> cases terminator' <;>
    simp only [listed, List.cons.injEq, Operand.text_injective.eq_iff, BlockId.text_injective.eq_iff,
      String.reduceEq, false_and, and_false, reduceCtorEq, true_and, and_true] at same ⊢
  case ret.ret | jump.jump => rw [same]
  case branch.branch => rw [same.1, same.2.1, same.2.2]

theorem listing_injective (readable : terminator.Legible) (readable' : terminator'.Legible)
    (same : terminator.listing = terminator'.listing) : terminator = terminator' := by
  have words := congrArg fields same
  rw [fields_listing readable, fields_listing readable'] at words
  exact listed_injective words

end Terminator

namespace Block

variable {block block' : Block}

/-- The lines of a block behind its heading. -/
def inner (block : Block) : List String :=
  block.instrs.map (fun instr => "    " ++ instr.listing) ++
    block.terminator.toList.map fun terminator => "    " ++ terminator.listing

theorem listing_eq : block.listing = block.heading :: block.inner := rfl

/-- Whether a line opens a block: it is indented by less than the lines inside. -/
def isHeading (line : String) : Bool := line.toList[2]? ≠ some ' '

/-- What stands at the start of the line that opens a block. -/
def opening (block : Block) : String := block.id.text ++ ":"

theorem whole_opening : Whole block.opening := Whole.append block.id.whole (by decide)

theorem heading_eq {hint : String} (named : block.hint = some hint) :
    block.heading = "  " ++ (block.opening ++ (" ; " ++ hint)) := by
  simp only [heading, named, opening, String.append_assoc]

theorem heading_inj (labelled : block.Labelled) (labelled' : block'.Labelled)
    (same : block.heading = block'.heading) : block.id = block'.id ∧ block.hint = block'.hint := by
  obtain ⟨hint, named, whole, _⟩ := labelled
  obtain ⟨hint', named', whole', _⟩ := labelled'
  have words := congrArg fields same
  rw [heading_eq named, heading_eq named'] at words
  simp (disch := decide) only [fields_append_of_closes, fields_append_between,
    whole_opening.fields_eq, whole.fields_eq, whole'.fields_eq] at words
  simp only [List.append_cancel_left_eq, List.singleton_append, List.cons.injEq] at words
  obtain ⟨opening, rfl, _⟩ := words
  rw [named, named']
  exact ⟨BlockId.text_injective ((String.append_left_inj _).mp opening), rfl⟩

theorem isHeading_listing (labelled : block.Labelled) :
    isHeading block.heading = true ∧ ∀ line ∈ block.inner, isHeading line = false := by
  have indented : ∀ text : String, isHeading ("    " ++ text) = false := by
    intro text
    simp [isHeading]
  obtain ⟨hint, named, _⟩ := labelled
  constructor
  · simp [isHeading, heading_eq named, opening, BlockId.text]
  · rw [inner, List.forall_mem_append, List.forall_mem_map, List.forall_mem_map]
    exact ⟨fun instr _ => indented _, fun terminator _ => indented _⟩

/-- A block is known by its lines. -/
theorem listing_injective (readable : block.Legible) (readable' : block'.Legible)
    (heading : block.heading = block'.heading) (inner : block.inner = block'.inner) :
    block = block' := by
  obtain ⟨id, hint⟩ := heading_inj readable.labelled readable'.labelled heading
  obtain ⟨terminator, ended, exit⟩ := readable.terminator
  obtain ⟨terminator', ended', exit'⟩ := readable'.terminator
  simp only [Block.inner, ended, ended'] at inner
  obtain ⟨lines, last⟩ := List.append_inj' inner rfl
  have instrs := eq_of_map_eq lines fun instr member instr' listed same =>
    Instr.listing_injective (readable.instrs instr member) (readable'.instrs instr' listed)
      ((String.append_right_inj _).mp same)
  have exits := Terminator.listing_injective exit exit'
    ((String.append_right_inj _).mp (List.cons.inj last).1)
  cases block
  cases block'
  simp_all

theorem lines_listing (readable : block.Legible) :
    ∀ line ∈ block.listing, line ≠ "" ∧ Unbroken line := by
  obtain ⟨hint, named, whole, _⟩ := readable.labelled
  obtain ⟨terminator, ended, exit⟩ := readable.terminator
  have head : Unbroken (block.opening ++ (" ; " ++ hint)) := by
    simp only [unbroken_append]
    exact ⟨whole_opening.2.unbroken, by decide, whole.2.unbroken⟩
  have last : Unbroken terminator.listing := by
    apply unbroken_of_fields
    rw [Terminator.fields_listing exit]
    exact Terminator.solid_listed exit
  have indented : ∀ {indent text : String}, indent ≠ "" → Unbroken indent → Unbroken text →
      indent ++ text ≠ "" ∧ Unbroken (indent ++ text) := fun some blank unbroken =>
    ⟨fun empty => some (String.append_eq_empty_iff.mp empty).1, unbroken_append.mpr ⟨blank, unbroken⟩⟩
  rw [listing_eq, heading_eq named, inner, ended, Option.toList_some, List.forall_mem_cons,
    List.forall_mem_append, List.forall_mem_map, List.forall_mem_map, List.forall_mem_singleton]
  refine ⟨indented (by decide) (by decide) head, fun instr member => ?_,
    indented (by decide) (by decide) last⟩
  exact indented (by decide) (by decide)
    (unbroken_of_fields (Instr.solid_listing (readable.instrs instr member)))

end Block

namespace Function

variable {function function' : Function}

/-- The line that opens the definition of a function in the listing. -/
def heading (function : Function) : String :=
  "define " ++ (function.name ++ " " ++ function.parameterListing ++ " -> " ++
    function.result.text ++ " ") ++ "\x7b"

/-- The lines of the definition of a function, without the blank line behind them. -/
def body (function : Function) : List String :=
  function.heading :: function.blocks.flatMap Block.listing ++ ["\x7d"]

theorem listing_eq (inside : function.external = false) :
    function.listing = function.body ++ [""] := by
  simp [listing, inside, body, heading]

def headingFields (function : Function) : List String :=
  "define" :: function.name ::
    (typed ((function.params.map Prod.fst).map Reg.text) ++ ["->", "i32", "\x7b"])

theorem fields_heading (legible : function.Legible) :
    fields function.heading = function.headingFields := by
  have params : function.params.map (fun param =>
      if function.external then param.2.text else param.2.text ++ " " ++ param.1.text) =
      ((function.params.map Prod.fst).map Reg.text).map ("i32 " ++ ·) := by
    rw [List.map_map, List.map_map]
    refine List.map_congr_left fun param member => ?_
    rw [legible.external, legible.params param member]
    rfl
  have listed : function.parameterListing = "(" ++
      commaSeparated (((function.params.map Prod.fst).map Reg.text).map ("i32 " ++ ·)) ++
        (if function.variadic then ", ..." else "") ++ ")" := by
    rw [← params]
    rfl
  simp only [heading, listed, legible.variadic, legible.result, Bool.false_eq_true, if_false,
    String.append_empty]
  simp (disch := decide) only [String.append_assoc, fields_append_of_closes, fields_append_between,
    fields_append_of_opens, legible.name.fields_eq]
  rw [fields_typed Reg.whole_texts]
  rfl

theorem solid_headingFields (legible : function.Legible) :
    ∀ field ∈ function.headingFields, Solid field := by
  simp only [headingFields, List.forall_mem_cons, List.forall_mem_append]
  exact ⟨by decide, legible.name.2, solid_typed Reg.whole_texts, by decide, by decide, by decide,
    by simp⟩

theorem heading_inj (legible : function.Legible) (legible' : function'.Legible)
    (same : function.heading = function'.heading) :
    function.name = function'.name ∧ function.params.map Prod.fst = function'.params.map Prod.fst := by
  have words := congrArg fields same
  rw [fields_heading legible, fields_heading legible'] at words
  simp only [headingFields, List.cons.injEq, true_and, List.append_left_inj] at words
  exact ⟨words.1, Reg.texts_injective (typed_injective words.2)⟩

/-- A function is known by its lines. -/
theorem body_injective (legible : function.Legible) (legible' : function'.Legible)
    (same : function.body = function'.body) : function = function' := by
  simp only [body, List.cons_append, List.cons.injEq] at same
  obtain ⟨name, params⟩ := heading_inj legible legible' same.1
  have groups := headed_inj
    (fun block member => Block.isHeading_listing (legible.labelled block member))
    (fun block member => Block.isHeading_listing (legible'.labelled block member))
    (List.append_cancel_right same.2)
  have blocks := eq_of_map_eq groups fun block member block' listed same =>
    Block.listing_injective (legible.blocks block member) (legible'.blocks block' listed)
      (congrArg Prod.fst same) (congrArg Prod.snd same)
  exact legible.eq_of_parts legible' name params blocks

theorem lines_body (legible : function.Legible) :
    ∀ line ∈ function.body, line ≠ "" ∧ Unbroken line := by
  have some : function.heading ≠ "" := by
    intro empty
    simpa [heading] using congrArg (·.toList.head?) empty
  have unbroken : Unbroken function.heading := by
    apply unbroken_of_fields
    rw [fields_heading legible]
    exact solid_headingFields legible
  rw [body, List.cons_append, List.forall_mem_cons, List.forall_mem_append,
    List.forall_mem_singleton, List.forall_mem_flatMap]
  exact ⟨⟨some, unbroken⟩, fun block member => Block.lines_listing (legible.blocks block member),
    by decide⟩

theorem blank_not_mem_body (legible : function.Legible) : "" ∉ function.body :=
  fun member => (lines_body legible _ member).1 rfl

end Function

theorem Global.listing_zeroGlobal (name : String) :
    (Lower.zeroGlobal name).listing = "global @" ++ name ++ (": i32 = " ++ "0") := by
  have zero : toString (0 : Int32).toInt = "0" := by decide
  simp only [Global.listing, Lower.zeroGlobal, Constant.listing, zero, Ty.text, String.append_assoc]
  rfl

theorem Global.listing_injective : Function.Injective fun name => (Lower.zeroGlobal name).listing := by
  intro name name' same
  simp only [listing_zeroGlobal, String.append_left_inj, String.append_right_inj] at same
  exact same

namespace Module

variable {module module' : Module} {names names' : List String} {defined defined' : List Function}

/-- The lines of the globals. -/
def globalListing (names : List String) : List String :=
  Lower.formatGlobal.listing :: names.map fun name => (Lower.zeroGlobal name).listing

theorem blank_not_mem_globalListing (names : List String) : "" ∉ globalListing names := by
  have some : ∀ line ∈ globalListing names, line ≠ "" := by
    refine List.forall_mem_cons.mpr ⟨by decide +kernel, List.forall_mem_map.mpr fun name _ same => ?_⟩
    rw [Global.listing_zeroGlobal] at same
    simpa using congrArg (·.toList.head?) same
  exact fun member => some _ member rfl

theorem unbroken_globalListing (spelled : ∀ name ∈ names, Whole name) :
    ∀ line ∈ globalListing names, Unbroken line := by
  refine List.forall_mem_cons.mpr ⟨by decide +kernel, List.forall_mem_map.mpr fun name member => ?_⟩
  simp only [Global.listing_zeroGlobal, unbroken_append]
  exact ⟨⟨by decide, (spelled name member).2.unbroken⟩, by decide, by decide⟩

theorem listingLines_eq (legible : module.Legible names defined) :
    module.listingLines = ("module " ++ module.name) :: "" ::
      (globalListing names ++ "" :: "declare printf (ptr, ...) -> i32 " ::
        (defined.map Function.body).flatMap (· ++ [""])) := by
  have printer : Lower.printer.listing = ["declare printf (ptr, ...) -> i32 "] := by decide
  have bodies : defined.flatMap Function.listing =
      (defined.map Function.body).flatMap (· ++ [""]) := by
    rw [List.flatMap_map]
    exact List.flatMap_congr fun function member =>
      Function.listing_eq (legible.readable function member).external
  rw [listingLines, legible.globals, legible.functions, List.flatMap_cons, printer, bodies]
  simp [globalListing, Function.comp_def]

theorem unbroken_listingLines (legible : module.Legible names defined) :
    ∀ line ∈ module.listingLines, Unbroken line := by
  rw [listingLines_eq legible]
  simp only [List.forall_mem_cons, List.forall_mem_append, unbroken_append, List.forall_mem_flatMap,
    List.forall_mem_map]
  refine ⟨⟨by decide, legible.name.2.unbroken⟩, by decide, unbroken_globalListing legible.spelled,
    by decide, by decide, fun function member => ⟨fun line listed => ?_, by decide, by simp⟩⟩
  exact (Function.lines_body (legible.readable function member) line listed).2

/-- Modules that can be read are equal if their listings are. -/
theorem Legible.listing_inj (legible : module.Legible names defined)
    (legible' : module'.Legible names' defined') (same : module.listing = module'.listing) :
    module = module' := by
  have lines := unlines_inj (unbroken_listingLines legible) (unbroken_listingLines legible') same
  rw [listingLines_eq legible, listingLines_eq legible'] at lines
  simp only [List.cons.injEq, String.append_right_inj, true_and] at lines
  obtain ⟨name, lines⟩ := lines
  obtain ⟨ofGlobals, lines⟩ :=
    split_inj (blank_not_mem_globalListing names) (blank_not_mem_globalListing names') lines
  have globals := (List.map_inj_right Global.listing_injective).mp (List.cons.inj ofGlobals).2
  have bodies := ended_inj
    (List.forall_mem_map.mpr fun function member =>
      Function.blank_not_mem_body (legible.readable function member))
    (List.forall_mem_map.mpr fun function member =>
      Function.blank_not_mem_body (legible'.readable function member))
    (List.cons.inj lines).2
  have functions := eq_of_map_eq bodies fun function member function' listed =>
    Function.body_injective (legible.readable function member) (legible'.readable function' listed)
  exact legible.eq_of_parts legible' name globals functions

end Module

end OliCompiler.Ir
