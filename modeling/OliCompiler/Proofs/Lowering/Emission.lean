import OliCompiler.Proofs.Lowering.Account

/-!
Lowering emits the code of each construct, rule by rule, behind the code that is there. It works in
the block that was started last, which stays open until control leaves it.
-/

namespace OliCompiler.Lower

open Ir

/-- What stays the same while a function is lowered: the module so far, the name of the function and
its parameters. -/
structure Site where
  base : Builder Nat
  name : String
  params : List Reg

/-- The builder when some code of the function is there, with its next register and block number. -/
def Site.holds (site : Site) (code : Code) (n k : Nat) (pending : List (BlockId × String)) : Builder Nat :=
  { site.base with
    nextReg := n
    nextBlock := k
    draft := some ⟨site.name, site.params, (Code.slots code).map (·, .i32), Code.blocks code⟩
    pending := pending }

/-- Whether the last block of some code has this number and no end yet. -/
def Open (code : Code) (id : BlockId) : Prop :=
  ∃ before hint inner, code = before ++ .label id hint :: inner ∧
    (∀ piece ∈ inner, Code.Inner piece) ∧ id ∉ Code.labels before

variable {code inner : Code} {id : BlockId}

theorem Open.append (opened : Open code id) (inside : ∀ piece ∈ inner, Code.Inner piece) :
    Open (code ++ inner) id := by
  obtain ⟨before, hint, here, rfl, insideHere, fresh⟩ := opened
  refine ⟨before, hint, here ++ inner, by simp, ?_, fresh⟩
  intro piece member
  rcases List.mem_append.mp member with member | member
  · exact insideHere piece member
  · exact inside piece member

theorem open_label (hint : String) (fresh : id ∉ Code.labels code) :
    Open (code ++ [.label id hint]) id :=
  ⟨code, hint, [], rfl, by simp, fresh⟩

private theorem blocks_label {hint : String} (inside : ∀ piece ∈ inner, Code.Inner piece)
    (behind : Code) (bare : Code.blocks behind = []) :
    Code.blocks (.label id hint :: (inner ++ behind)) =
      [⟨id, some hint, Code.body inner ++ Code.body behind, Code.ending behind⟩] := by
  rw [Code.blocks, Code.body_append inside, Code.ending_append inside, Code.blocks_append inside, bare]

/-- Behind open code, a piece without a label changes the last block only. -/
theorem Open.map_blocks (opened : Open code id) (piece : Piece) (bare : Code.blocks [piece] = [])
    (change : Block → Block)
    (changed : ∀ hint instrs, change ⟨id, hint, instrs, none⟩ =
      ⟨id, hint, instrs ++ Code.body [piece], Code.ending [piece]⟩) :
    (Code.blocks code).map (fun block => if block.id = id then change block else block) =
      Code.blocks (code ++ [piece]) := by
  obtain ⟨before, hint, inner, rfl, inside, fresh⟩ := opened
  have others : (Code.blocks before).map
      (fun block => if block.id = id then change block else block) = Code.blocks before := by
    refine (List.map_congr_left ?_).trans (List.map_id _)
    intro block member
    have different : block.id ≠ id := by
      rintro rfl
      exact fresh (Code.map_id_blocks ▸ List.mem_map.mpr ⟨block, member, rfl⟩)
    exact if_neg different
  have last : Code.blocks (.label id hint :: inner) = [⟨id, some hint, Code.body inner, none⟩] := by
    simpa [Code.body, Code.ending] using blocks_label inside [] rfl
  rw [List.append_assoc, List.cons_append, Code.blocks_append_label, Code.blocks_append_label,
    blocks_label inside [piece] bare, last, List.map_append, others]
  simp [changed]

theorem blocks_slot {reg : Reg} : Code.blocks (code ++ [.slot reg]) = Code.blocks code := by
  have body : ∀ code : Code, Code.body (code ++ [.slot reg]) = Code.body code := by
    intro code
    induction code with
    | nil => rfl
    | cons piece code ih => cases piece <;> simp [Code.body, ih]
  have ending : ∀ code : Code, Code.ending (code ++ [.slot reg]) = Code.ending code := by
    intro code
    induction code with
    | nil => rfl
    | cons piece code ih => cases piece <;> simp [Code.ending, ih]
  induction code with
  | nil => rfl
  | cons piece code ih => cases piece <;> simp [Code.blocks, body, ending, ih]

/-- Whether an action gives a value and takes one builder to another. -/
def Emits {α : Type} (action : Build α) (before : Builder Nat) (value : α) (after : Builder Nat) : Prop :=
  action.run before = (value, after)

variable {α β : Type} {site : Site} {n k : Nat} {pending : List (BlockId × String)}

theorem emits_pure {builder : Builder Nat} {value : α} : Emits (pure value) builder value builder := rfl

theorem Emits.bind {first : Build α} {next : α → Build β} {value : α} {result : β}
    {before middle after : Builder Nat} (done : Emits first before value middle)
    (rest : Emits (next value) middle result after) : Emits (first >>= next) before result after := by
  rw [Emits, StateT.run_bind, show first.run before = (value, middle) from done]
  exact rest

theorem append_emits (opened : Open code id) (op : Op) :
    Emits (append id op) (site.holds code n k pending) (.reg ⟨n⟩)
      (site.holds (code ++ [.instr ⟨some ⟨n⟩, op⟩]) (n + 1) k pending) := by
  have blocks := opened.map_blocks (.instr ⟨some ⟨n⟩, op⟩) rfl
    (fun block => { block with instrs := block.instrs ++ [⟨some ⟨n⟩, op⟩] }) (fun _ _ => rfl)
  simp only [Emits, Site.holds, ← blocks, Code.slots_append, Code.slots, List.append_nil]
  rfl

theorem store_emits (opened : Open code id) (address value : Operand) :
    Emits (store id address value) (site.holds code n k pending) ()
      (site.holds (code ++ [.instr ⟨none, .store address value⟩]) n k pending) := by
  have blocks := opened.map_blocks (.instr ⟨none, .store address value⟩) rfl
    (fun block => { block with instrs := block.instrs ++ [⟨none, .store address value⟩] })
    (fun _ _ => rfl)
  simp only [Emits, Site.holds, ← blocks, Code.slots_append, Code.slots, List.append_nil]
  rfl

theorem terminate_emits (opened : Open code id) (terminator : Terminator) :
    Emits (terminate id terminator) (site.holds code n k pending) ()
      (site.holds (code ++ [.exit terminator]) n k pending) := by
  have blocks := opened.map_blocks (.exit terminator) rfl
    (fun block => { block with terminator := block.terminator.or (some terminator) })
    (fun _ _ => by simp [Code.body, Code.ending])
  simp only [Emits, Site.holds, ← blocks, Code.slots_append, Code.slots, List.append_nil]
  rfl

theorem newSlot_emits :
    Emits newSlot (site.holds code n k pending) (.reg ⟨n⟩)
      (site.holds (code ++ [.slot ⟨n⟩]) (n + 1) k pending) := by
  simp only [Emits, Site.holds, blocks_slot, Code.slots_append, Code.slots, List.map_append]
  rfl

theorem create_emits (hint : String) :
    Emits (create hint) (site.holds code n k pending) ⟨k⟩
      (site.holds code n (k + 1) (pending ++ [(⟨k⟩, hint)])) := rfl

/-- Further blocks are created behind those that are pending. -/
theorem createNext_emits {before behind : List (BlockId × String)} (hint : String) :
    Emits (create hint) (site.holds code n k (before ++ behind)) ⟨k⟩
      (site.holds code n (k + 1) (before ++ (behind ++ [(⟨k⟩, hint)]))) := by
  rw [← List.append_assoc]
  exact create_emits hint

theorem start_emits {hint : String} {before behind : List (BlockId × String)}
    (absent : id ∉ (before ++ behind).map Prod.fst) :
    Emits (start id) (site.holds code n k (before ++ (id, hint) :: behind)) ()
      (site.holds (code ++ [.label id hint]) n k (before ++ behind)) := by
  have kept : ∀ entry ∈ before ++ behind, entry.1 ≠ id := by
    rintro entry member rfl
    exact absent (List.mem_map.mpr ⟨entry, member, rfl⟩)
  have listed : (before ++ (id, hint) :: behind).lookup id = some hint := by
    rw [List.lookup_append, List.lookup_eq_none_iff.mpr, List.lookup_cons_self, Option.none_or]
    intro entry member
    exact bne_iff_ne.mpr (kept entry (List.mem_append_left _ member)).symm
  have filtered {keep : BlockId × String → Bool} (dropped : keep (id, hint) = false)
      (others : ∀ entry ∈ before ++ behind, keep entry = true) :
      (before ++ (id, hint) :: behind).filter keep = before ++ behind := by
    rw [List.filter_append, List.filter_cons_of_neg (by simp [dropped]), ← List.filter_append]
    exact List.filter_eq_self.mpr others
  have started : (site.holds code n k (before ++ (id, hint) :: behind)).startBlock id =
      site.holds (code ++ [.label id hint]) n k (before ++ behind) := by
    simp only [Site.holds, Builder.startBlock, listed, Code.blocks_append_label,
      Code.slots_append, Code.slots, List.append_nil]
    rw [filtered (by simp) fun entry member => decide_eq_true (kept entry member)]
    rfl
  exact congrArg (Prod.mk ()) started

theorem place_prefix {symbols : Symbols} {slots : List Reg} {var : Scoped.Var}
    (found : var.InScope symbols (Code.slots code).length) (settled : Code.slots code <+: slots) :
    place slots var = place (Code.slots code) var := by
  cases var with
  | «local» slot =>
    obtain ⟨rest, rfl⟩ := settled
    simp only [place, List.getElem?_append_left found]
  | global => rfl

theorem address_emits (var : Scoped.Var) :
    Emits (address var) (site.holds code n k pending) (place (Code.slots code) var)
      (site.holds code n k pending) := by
  cases var with
  | «local» slot =>
    have register : ((((Code.slots code).map (·, Ty.i32))[slot]?.map (·.1)).getD default) =
        (Code.slots code)[slot]?.getD default := by
      simp [Function.comp_def]
    exact congrArg (fun reg => (Operand.reg reg, _)) register
  | global => rfl

theorem Open.instrs (opened : Open code id) (instrs : List Instr) :
    Open (code ++ Code.ofInstrs instrs) id :=
  opened.append Code.inner_ofInstrs

theorem Open.instr (opened : Open code id) (instr : Instr) : Open (code ++ [.instr instr]) id :=
  opened.append (by simp [Code.Inner])

theorem Open.slot (opened : Open code id) (reg : Reg) : Open (code ++ [.slot reg]) id :=
  opened.append (by simp [Code.Inner])

/-- Whether an action emits instructions of some shape behind open code. -/
def Computes (site : Site) (code : Code) (n k : Nat) (pending : List (BlockId × String))
    (action : Build α) (shape : List Reg → List Instr → α → Nat → Prop) : Prop :=
  ∃ instrs value n', Emits action (site.holds code n k pending) value
      (site.holds (code ++ Code.ofInstrs instrs) n' k pending) ∧
    ∀ slots, Code.slots code <+: slots → shape slots instrs value n'

theorem Computes.bind {first : Build α} {next : α → Build β}
    {shape : List Reg → List Instr → α → Nat → Prop}
    {shape' : List Reg → List Instr → β → Nat → Prop}
    (done : Computes site code n k pending first shape)
    (rest : ∀ instrs value n', (∀ slots, Code.slots code <+: slots → shape slots instrs value n') →
      Computes site (code ++ Code.ofInstrs instrs) n' k pending (next value)
        fun slots more => shape' slots (instrs ++ more)) :
    Computes site code n k pending (first >>= next) shape' := by
  obtain ⟨instrs, value, n', emitted, shaped⟩ := done
  obtain ⟨more, result, n'', emittedNext, shapedNext⟩ := rest instrs value n' shaped
  refine ⟨instrs ++ more, result, n'', ?_, ?_⟩
  · rw [Code.ofInstrs_append, ← List.append_assoc]
    exact emitted.bind emittedNext
  · intro slots settled
    exact shapedNext slots (by simpa using settled)

theorem computes_pure {value : α} {shape : List Reg → List Instr → α → Nat → Prop}
    (shaped : ∀ slots, Code.slots code <+: slots → shape slots [] value n) :
    Computes site code n k pending (pure value) shape := by
  refine ⟨[], value, n, ?_, shaped⟩
  simpa [Code.ofInstrs] using emits_pure

theorem append_computes (opened : Open code id) (op : Op) :
    Computes site code n k pending (append id op) fun _ instrs operand n' =>
      instrs = [⟨some ⟨n⟩, op⟩] ∧ operand = .reg ⟨n⟩ ∧ n' = n + 1 :=
  ⟨[⟨some ⟨n⟩, op⟩], .reg ⟨n⟩, n + 1, append_emits opened op, fun _ _ => ⟨rfl, rfl, rfl⟩⟩

theorem asWord_computes (opened : Open code id) {value : Scoped.Expr} {instrs : List Instr}
    {result : Result} {m : Nat}
    (shaped : ∀ slots, Code.slots code <+: slots → ExprCode slots m value instrs result n) :
    Computes site code n k pending (asWord id result) fun slots more operand n' =>
      WordCode slots m value (instrs ++ more) operand n' := by
  cases result with
  | word operand =>
    refine computes_pure fun slots settled => ?_
    simpa using .word (shaped slots settled)
  | truth operand =>
    obtain ⟨more, value, n', emitted, same⟩ := append_computes opened (.widen operand .i32)
    refine ⟨more, value, n', emitted, fun slots settled => ?_⟩
    obtain ⟨rfl, rfl, rfl⟩ := same slots settled
    exact .truth (shaped slots settled)

theorem asTruth_computes (opened : Open code id) {value : Scoped.Expr} {instrs : List Instr}
    {result : Result} {m : Nat}
    (shaped : ∀ slots, Code.slots code <+: slots → ExprCode slots m value instrs result n) :
    Computes site code n k pending (asTruth id result) fun slots more operand n' =>
      TestCode slots m value (instrs ++ more) operand n' := by
  cases result with
  | truth operand =>
    refine computes_pure fun slots settled => ?_
    simpa using .truth (shaped slots settled)
  | word operand =>
    obtain ⟨more, value, n', emitted, same⟩ := append_computes opened (.compare .ne operand (.int 0))
    refine ⟨more, value, n', emitted, fun slots settled => ?_⟩
    obtain ⟨rfl, rfl, rfl⟩ := same slots settled
    exact .word (shaped slots settled)

variable {symbols : Symbols}

/-- An operation on a computed value goes behind its code. -/
theorem finish_computes {shape : List Reg → List Instr → α → Nat → Prop}
    {instrs : List Instr} {op : Op} {wrap : Operand → α} (opened : Open code id)
    (shaped : ∀ slots, Code.slots code <+: slots →
      shape slots (instrs ++ [⟨some ⟨n⟩, op⟩]) (wrap (.reg ⟨n⟩)) (n + 1)) :
    Computes site code n k pending (do return wrap (← append id op)) fun slots more =>
      shape slots (instrs ++ more) := by
  refine (append_computes opened op).bind fun more value n' same => computes_pure fun slots settled => ?_
  obtain ⟨rfl, rfl, rfl⟩ := same slots (by simpa using settled)
  simpa using shaped slots (by simpa using settled)

theorem expr_print {value : Scoped.Expr} :
    expr id (.print value) = (do
      let operand ← word id value
      return .word (← append id (.call printerName [.global formatName, operand]))) := by
  simp only [expr, word, bind_assoc]

theorem expr_arith {op : Arith} {left right : Scoped.Expr} :
    expr id (.binary (.arith op) left right) = (do
      let a ← word id left
      let b ← word id right
      return .word (← append id (.arith (arithOf op) a b))) := by
  simp only [expr, word, bind_assoc]

theorem expr_compare {op : Comparison} {left right : Scoped.Expr} :
    expr id (.binary (.compare op) left right) = (do
      let a ← word id left
      let b ← word id right
      return .truth (← append id (.compare (conditionOf op) a b))) := by
  simp only [expr, word, bind_assoc]

theorem words_cons {value : Scoped.Expr} {values : List Scoped.Expr} :
    words id (value :: values) = (do
      let operand ← word id value
      let operands ← words id values
      return operand :: operands) := by
  simp only [words, word, bind_assoc]

theorem word_computes {value : Scoped.Expr} (opened : Open code id)
    (done : Computes site code n k pending (expr id value) fun slots => ExprCode slots n value) :
    Computes site code n k pending (word id value) fun slots => WordCode slots n value :=
  done.bind fun instrs _ _ shaped => asWord_computes (opened.instrs instrs) (by simpa using shaped)

theorem truth_computes {value : Scoped.Expr} (opened : Open code id)
    (done : Computes site code n k pending (expr id value) fun slots => ExprCode slots n value) :
    Computes site code n k pending (truth id value) fun slots => TestCode slots n value :=
  done.bind fun instrs _ _ shaped => asTruth_computes (opened.instrs instrs) (by simpa using shaped)

mutual

theorem expr_computes : ∀ {code : Code} {n : Nat} (value : Scoped.Expr), Open code id →
    value.InScope symbols (Code.slots code).length →
      Computes site code n k pending (expr id value) fun slots => ExprCode slots n value
  | _, _, .int _, _, _ => computes_pure fun _ _ => .int
  | code, n, .var var, opened, settled => by
    refine ⟨[⟨some ⟨n⟩, .load (place (Code.slots code) var)⟩], _, n + 1,
      (address_emits var).bind ((append_emits opened _).bind emits_pure), fun slots extended => ?_⟩
    rw [← place_prefix settled extended]
    exact .var
  | _, _, .print value, opened, settled => by
    rw [expr_print]
    refine (word_computes opened (expr_computes value opened settled)).bind fun instrs _ _ argument => ?_
    refine finish_computes (opened.instrs instrs) fun slots extended => ?_
    exact .print (argument slots (by simpa using extended))
  | _, _, .call _ args, opened, settled => by
    refine (words_computes args opened settled.2).bind fun instrs _ _ arguments => ?_
    refine finish_computes (opened.instrs instrs) fun slots extended => ?_
    exact .call (arguments slots (by simpa using extended))
  | _, _, .binary op left right, opened, settled => by
    have first := fun n => word_computes opened (expr_computes (n := n) left opened settled.1)
    have second := fun instrs n => word_computes (opened.instrs instrs)
      (expr_computes (n := n) right (opened.instrs instrs) (by simpa using settled.2))
    cases op with
    | arith op =>
      rw [expr_arith]
      refine (first _).bind fun instrs _ _ shaped => (second instrs _).bind fun more _ _ shapedToo => ?_
      simp only [← List.append_assoc]
      refine finish_computes ((opened.instrs instrs).instrs more) fun slots extended => ?_
      exact .arith (shaped slots (by simpa using extended)) (shapedToo slots (by simpa using extended))
    | compare op =>
      rw [expr_compare]
      refine (first _).bind fun instrs _ _ shaped => (second instrs _).bind fun more _ _ shapedToo => ?_
      simp only [← List.append_assoc]
      refine finish_computes ((opened.instrs instrs).instrs more) fun slots extended => ?_
      exact .compare (shaped slots (by simpa using extended)) (shapedToo slots (by simpa using extended))

theorem words_computes : ∀ {code : Code} {n : Nat} (values : List Scoped.Expr), Open code id →
    Scoped.Expr.AllInScope symbols (Code.slots code).length values →
      Computes site code n k pending (words id values) fun slots => WordsCode slots n values
  | _, _, [], _, _ => computes_pure fun _ _ => .nil
  | _, _, value :: values, opened, settled => by
    rw [words_cons]
    refine (word_computes opened (expr_computes value opened settled.1)).bind fun instrs _ _ first => ?_
    refine (words_computes values (opened.instrs instrs) (by simpa using settled.2)).bind
      fun more _ _ rest => computes_pure fun slots extended => ?_
    rw [List.append_nil]
    exact .cons (first slots (by simpa using extended)) (rest slots (by simpa using extended))

end

end OliCompiler.Lower
