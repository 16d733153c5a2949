import OliCompiler.Proofs.Builder.Invariant
import OliCompiler.Proofs.Tables

/-!
A builder that finds blocks by a table and inserts stack slots in place builds the same function as one
that searches for blocks and keeps the slots apart. The table is exact because the numbers of started
blocks are distinct.
-/

namespace OliCompiler.Ir

theorem insertIdx_length {α : Type} (front back : List α) (item : α) :
    (front ++ back).insertIdx front.length item = front ++ item :: back := by
  induction front with
  | nil => cases back <;> rfl
  | cons first front ih => simpa using ih

namespace Draft

variable {draft : Draft} {id : BlockId} {change : Block → Block}

theorem placedBlocks_cons {entry : Block} {others : List Block} (shape : draft.blocks = entry :: others) :
    draft.placedBlocks = { entry with instrs := draft.slotInstrs ++ entry.instrs } :: others := by
  rw [placedBlocks, shape]

@[simp]
theorem map_id_placedBlocks : draft.placedBlocks.map Block.id = draft.blocks.map Block.id := by
  cases shape : draft.blocks with
  | nil => simp [placedBlocks, shape]
  | cons entry others => simp [placedBlocks_cons shape]

@[simp]
theorem length_placedBlocks : draft.placedBlocks.length = draft.blocks.length := by
  have same := congrArg List.length draft.map_id_placedBlocks
  rwa [List.length_map, List.length_map] at same

/-- A change that leaves what it finds in front of the instructions can be made with the slots placed. -/
theorem placedBlocks_modifyBlock
    (behind : ∀ front block, change { block with instrs := front ++ block.instrs } =
      { change block with instrs := front ++ (change block).instrs }) :
    (draft.modifyBlock id change).placedBlocks =
      draft.placedBlocks.map fun block => if block.id = id then change block else block := by
  cases shape : draft.blocks with
  | nil => simp [placedBlocks, modifyBlock, shape]
  | cons entry others =>
    have placed := placedBlocks_cons shape
    by_cases same : entry.id = id
    · have changed : (draft.modifyBlock id change).blocks =
          change entry :: others.map fun block => if block.id = id then change block else block := by
        simp [modifyBlock, shape, same]
      rw [placedBlocks_cons changed, placed, List.map_cons, if_pos same, behind]
      rfl
    · simp [placedBlocks, modifyBlock, shape, same, slotInstrs]

theorem placedBlocks_append (opened : draft.blocks ≠ []) (block : Block) :
    ({ draft with blocks := draft.blocks ++ [block] } : Draft).placedBlocks =
      draft.placedBlocks ++ [block] := by
  obtain ⟨entry, others, shape⟩ := List.exists_cons_of_ne_nil opened
  simp [placedBlocks, shape, slotInstrs]

/-- A slot that is asked for comes behind the slots in the entry block. -/
theorem placedBlocks_slot {entry : Block} {others : List Block} (shape : draft.blocks = entry :: others)
    (reg : Reg) (ty : Ty) :
    ({ draft with slots := draft.slots ++ [(reg, ty)] } : Draft).placedBlocks =
      { entry with
        instrs := (draft.slotInstrs ++ entry.instrs).insertIdx draft.slots.length
          ⟨some reg, .slot ty⟩ } :: others := by
  have count : draft.slots.length = draft.slotInstrs.length := by rw [slotInstrs, List.length_map]
  rw [count, insertIdx_length]
  simp [placedBlocks, shape, slotInstrs]

end Draft

/-- Changing the block at the position of a number is changing the blocks of the number. -/
theorem modify_position {blocks : List Block} {id : BlockId} {position : Nat}
    (distinct : (blocks.map Block.id).Nodup) (found : (blocks.map Block.id)[position]? = some id)
    (change : Block → Block) : blocks.modify position change =
      blocks.map fun block => if block.id = id then change block else block := by
  refine List.ext_getElem? fun index => ?_
  rw [List.getElem?_modify, List.getElem?_map]
  cases present : blocks[index]? with
  | none => simp
  | some block =>
    have same : block.id = id ↔ position = index := by
      have here : (blocks.map Block.id)[index]? = some block.id := by simp [present]
      constructor
      · intro same
        obtain ⟨inside, _⟩ := List.getElem?_eq_some_iff.mp found
        exact (List.getElem?_inj inside distinct).mp (found.trans (same ▸ here.symm))
      · rintro rfl
        exact Option.some.inj (here.symm.trans found)
    by_cases hit : position = index
    · simp [hit, same.mpr hit]
    · simp [hit, mt same.mp hit]

theorem getElem?_append_singleton (ids : List BlockId) (id other : BlockId) (position : Nat) :
    (ids ++ [id])[position]? = some other ↔
      ids[position]? = some other ∨ position = ids.length ∧ id = other := by
  rcases Nat.lt_trichotomy position ids.length with less | same | greater
  · rw [List.getElem?_append_left less]
    exact ⟨.inl, fun found => found.resolve_right fun ⟨same, _⟩ => Nat.ne_of_lt less same⟩
  · simp [same]
  · have behind : (ids ++ [id]).length ≤ position := by simpa using Nat.succ_le_of_lt greater
    rw [List.getElem?_eq_none behind, List.getElem?_eq_none (Nat.le_of_lt greater)]
    simp [Nat.ne_of_gt greater]

/-- A table of positions takes one more number behind those that it has. -/
theorem getElem?_insert_length {index : Std.HashMap BlockId Nat} {ids : List BlockId}
    {id : BlockId}
    (known : ∀ (other : BlockId) (position : Nat),
      index[other]? = some position ↔ ids[position]? = some other)
    (fresh : id ∉ ids) (other : BlockId) (position : Nat) :
    (index.insert id ids.length)[other]? = some position ↔ (ids ++ [id])[position]? = some other := by
  rw [Std.HashMap.getElem?_insert, getElem?_append_singleton]
  by_cases same : id = other
  · subst same
    have absent : ids[position]? ≠ some id := fun found => fresh (List.mem_of_getElem? found)
    simp only [beq_self_eq_true, if_true, Option.some.injEq, absent, false_or, and_true]
    exact eq_comm
  · simp only [beq_eq_false_iff_ne.mpr same, Bool.false_eq_true, if_false, known, same, and_false,
      or_false]

namespace Indexed

variable {ν : Type}

/-- Whether a builder that keeps a table has made the same as one that does not, and its table and its
number of slots are those of the function in progress. -/
structure Represents (table : Indexed ν) (builder : Builder ν) : Prop where
  globals : table.globals = builder.globals
  functions : table.functions = builder.functions
  nextReg : table.nextReg = builder.nextReg
  nextBlock : table.nextBlock = builder.nextBlock
  current : table.current = builder.function?
  index : ∀ (id : BlockId) (position : Nat),
    table.index[id]? = some position ↔ builder.startedIds[position]? = some id
  pending : ∀ id : BlockId, table.pending[id]? = builder.pending.lookup id
  slots : ∀ draft ∈ builder.draft, table.slots = draft.slots.length

variable {table : Indexed ν} {builder : Builder ν} {journal : List Entry} {id : BlockId} {draft : Draft}

theorem Represents.current_of_none (represents : table.Represents builder)
    (present : builder.draft = none) : table.current = none :=
  represents.current.trans (congrArg (Option.map Draft.toFunction) present)

theorem Represents.current_of_draft (represents : table.Represents builder)
    (present : builder.draft = some draft) : table.current = some draft.toFunction :=
  represents.current.trans (congrArg (Option.map Draft.toFunction) present)

theorem Represents.addGlobal (global : Global) (represents : table.Represents builder) :
    (table.addGlobal global).Represents (builder.addGlobal global) :=
  { represents with globals := congrArg (· ++ [global]) represents.globals }

theorem Represents.declareVariadic (name : String) (params : List Ty) (result : Ty)
    (represents : table.Represents builder) :
    (table.declareVariadic name params result).Represents (builder.declareVariadic name params result) :=
  { represents with functions := congrArg (· ++ [_]) represents.functions }

theorem Represents.finishFunction (represents : table.Represents builder) :
    table.finishFunction.Represents builder.finishFunction where
  globals := represents.globals
  functions := by
    have current := represents.current
    simp only [Indexed.finishFunction, Builder.finishFunction, represents.functions, current]
    rfl
  nextReg := represents.nextReg
  nextBlock := represents.nextBlock
  current := rfl
  index id position := by simp [Indexed.finishFunction, Builder.startedIds, Builder.finishFunction]
  pending id := by simp [Indexed.finishFunction, Builder.finishFunction]
  slots draft absent := by cases absent

theorem Represents.pending_erase (represents : table.Represents builder) (other : BlockId) :
    (table.pending.erase id)[other]? =
      (builder.pending.filter fun pair => pair.1 ≠ id).lookup other := by
  rw [lookup_filter_ne, ← represents.pending other, Std.HashMap.getElem?_erase]
  simp

theorem modifyBlock_eq (table : Indexed ν) (id : BlockId) (change : Block → Block) :
    table.modifyBlock id change =
      { table with current := (table.modifyBlock id change).current } := by
  unfold modifyBlock
  split <;> rfl

theorem modifyBlock_idle {change : Block → Block} (idle : table.current = none) :
    table.modifyBlock id change = table := by
  obtain ⟨name, globals, functions, nextReg, nextBlock, current, index, pending, slots⟩ := table
  subst idle
  unfold modifyBlock
  split <;> rfl

variable [Counter ν]

theorem empty_represents (name : String) : (empty name : Indexed ν).Represents (.empty name) where
  globals := rfl
  functions := rfl
  nextReg := rfl
  nextBlock := rfl
  current := rfl
  index id position := by simp [empty, Builder.startedIds, Builder.empty]
  pending id := by simp [empty, Builder.empty]
  slots draft absent := by cases absent

theorem Represents.freshReg (represents : table.Represents builder) :
    table.freshReg.2.Represents builder.freshReg.2 :=
  { represents with nextReg := congrArg Counter.next represents.nextReg }

theorem Represents.freshBlock (represents : table.Represents builder) :
    table.freshBlock.2.Represents builder.freshBlock.2 :=
  { represents with nextBlock := congrArg Counter.next represents.nextBlock }

/-- The number of a new block is not among those that are pending. -/
theorem Represents.createBlock (hint : String) (kept : builder.Kept journal)
    (represents : table.Represents builder) :
    (table.createBlock hint).2.Represents (builder.createBlock hint).2 :=
  { represents.freshBlock with
    pending := by
      intro id
      have fresh : builder.pending.lookup ⟨Counter.toNat builder.nextBlock⟩ = none := by
        rw [← Option.not_isSome_iff_eq_none, ← Builder.mem_pendingIds]
        exact fun member => Nat.lt_irrefl _ (kept.numbered _ (List.mem_append_right _ member))
      simp only [Indexed.createBlock, Indexed.freshBlock, Builder.createBlock, Builder.freshBlock,
        represents.nextBlock, Std.HashMap.getElem?_insert, List.lookup_append, represents.pending]
      by_cases same : (⟨Counter.toNat builder.nextBlock⟩ : BlockId) = id
      · subst same
        simp [fresh]
      · have apart : (id == ⟨Counter.toNat builder.nextBlock⟩) = false := beq_eq_false_iff_ne.mpr (Ne.symm same)
        simp [same, List.lookup_cons, apart] }

theorem Represents.startBlock (kept : builder.Kept journal) (represents : table.Represents builder) :
    (table.startBlock id).Represents (builder.startBlock id) := by
  by_cases waiting : id ∈ builder.pendingIds
  · obtain ⟨hint, found, starts⟩ := Builder.startBlock_of_mem waiting
    have known : table.pending[id]? = some hint := (represents.pending id).trans found
    cases present : builder.draft with
    | none =>
      have idle := represents.current_of_none present
      have starts' : table.startBlock id = { table with pending := table.pending.erase id } := by
        simp only [Indexed.startBlock, known, idle]
      rw [starts, starts', present]
      exact { represents with
        current := idle
        index := by simpa [Builder.startedIds, present] using represents.index
        pending := represents.pending_erase
        slots := fun draft absent => by cases absent }
    | some draft =>
      have starts' : table.startBlock id = { table with
          pending := table.pending.erase id
          index := table.index.insert id draft.placedBlocks.length
          current := some { draft.toFunction with
            blocks := draft.placedBlocks ++ [⟨id, some hint, [], none⟩] } } := by
        simp only [Indexed.startBlock, known, represents.current_of_draft present]
        rfl
      have length : draft.placedBlocks.length = builder.startedIds.length := by
        rw [Builder.startedIds_of_draft present, Draft.length_placedBlocks, List.length_map]
      have fresh : id ∉ builder.startedIds :=
        fun member => (List.nodup_append.mp kept.distinct).2.2 _ member _ waiting rfl
      rw [starts, starts', present]
      exact { represents with
        current := by
          rw [← Draft.placedBlocks_append (kept.draft draft present).opened]
          rfl
        index := by
          intro other position
          have grown := getElem?_insert_length represents.index fresh other position
          rw [← length, Builder.startedIds_of_draft present] at grown
          simpa [Builder.startedIds] using grown
        pending := represents.pending_erase
        slots := by
          rintro _ ⟨⟩
          exact represents.slots draft present }
  · have unknown : table.pending[id]? = none := by
      rw [represents.pending, ← Option.not_isSome_iff_eq_none, ← Builder.mem_pendingIds]
      exact waiting
    rw [Builder.startBlock_of_notMem waiting, Indexed.startBlock, unknown]
    exact represents

theorem Represents.startFunction (name : String) (arity : Nat) (represents : table.Represents builder) :
    (table.startFunction name arity).2.Represents (builder.startFunction name arity).2 := by
  generalize same : (⟨Counter.toNat (Counter.ofNat 0 : ν)⟩ : BlockId) = zero
  have pending : ∀ other : BlockId,
      (((∅ : Std.HashMap BlockId String).insert zero "entry").erase zero)[other]? = none := by
    intro other
    rw [Std.HashMap.getElem?_erase, Std.HashMap.getElem?_insert]
    split <;> simp_all
  have starts : (table.startFunction name arity).2 = { table.finishFunction with
      nextReg := Counter.ofNat arity
      nextBlock := Counter.next (Counter.ofNat 0)
      slots := 0
      index := (∅ : Std.HashMap BlockId Nat).insert zero 0
      pending := ((∅ : Std.HashMap BlockId String).insert zero "entry").erase zero
      current := some ⟨name, ((List.range arity).map fun index =>
          (⟨Counter.toNat (Counter.ofNat index : ν)⟩ : Reg)).map (·, .i32), .i32,
        [⟨zero, some "entry", [], none⟩], false, false⟩ } := by
    simp [Indexed.startFunction, Indexed.startBlock, Indexed.createBlock, Indexed.freshBlock,
      Indexed.finishFunction, same]
  rw [starts, (builder.startFunction_eq name arity).2, same]
  exact { represents.finishFunction with
    nextReg := rfl
    nextBlock := rfl
    current := rfl
    index := @getElem?_insert_length _ [] zero (by simp) (by simp)
    pending := pending
    slots := by
      rintro _ ⟨⟩
      rfl }

/-- The table leads to the block of the number, which is the only one. -/
theorem modifyBlock_current {change : Block → Block}
    (behind : ∀ front block, change { block with instrs := front ++ block.instrs } =
      { change block with instrs := front ++ (change block).instrs })
    (kept : builder.Kept journal) (represents : table.Represents builder)
    (present : builder.draft = some draft) :
    (table.modifyBlock id change).current = some (draft.modifyBlock id change).toFunction := by
  have ids := Builder.startedIds_of_draft present
  have distinct := (List.nodup_append.mp kept.distinct).1
  have current := represents.current_of_draft present
  have index := represents.index id
  rw [ids] at index distinct
  cases found : table.index[id]? with
  | none =>
    have absent : id ∉ draft.blocks.map Block.id := by
      intro member
      obtain ⟨position, here⟩ := List.mem_iff_getElem?.mp member
      rw [(index position).mpr here] at found
      cases found
    simp only [modifyBlock, found, current, Draft.modifyBlock_of_notMem absent]
  | some position =>
    have here := (index position).mp found
    rw [← Draft.map_id_placedBlocks] at here distinct
    have changed := (modify_position distinct here change).trans
      (Draft.placedBlocks_modifyBlock behind).symm
    simp only [modifyBlock, found, current, Option.map_some]
    exact congrArg (fun blocks => some { draft.toFunction with blocks := blocks }) changed

theorem Represents.modifyBlock {change : Block → Block}
    (behind : ∀ front block, change { block with instrs := front ++ block.instrs } =
      { change block with instrs := front ++ (change block).instrs })
    (keeps : ∀ block, (change block).id = block.id)
    (kept : builder.Kept journal) (represents : table.Represents builder) :
    (table.modifyBlock id change).Represents
      (builder.mapDraft fun draft => draft.modifyBlock id change) := by
  cases present : builder.draft with
  | none =>
    have idle := represents.current_of_none present
    have same : builder.mapDraft (fun draft => draft.modifyBlock id change) = builder := by
      rw [Builder.mapDraft, present, Option.map_none, ← present]
    rw [modifyBlock_idle idle, same]
    exact represents
  | some draft =>
    have ids := Builder.startedIds_of_draft present
    rw [modifyBlock_eq, modifyBlock_current behind kept represents present, Builder.mapDraft, present]
    exact { represents with
      current := rfl
      index := by
        intro other position
        have old := represents.index other position
        rw [ids, ← Draft.map_id_modifyBlock keeps] at old
        exact old
      slots := by
        rintro _ ⟨⟩
        exact represents.slots draft present }

theorem Represents.emit (instr : Instr) (kept : builder.Kept journal)
    (represents : table.Represents builder) :
    (table.emit id instr).Represents (builder.emit id instr) := by
  refine represents.modifyBlock (fun front block => ?_) (Block.push_id instr) kept
  rw [List.append_assoc]

/-- A slot goes behind those that stand in front of the entry block already. -/
theorem Represents.slot (ty : Ty) (kept : builder.Kept journal) (represents : table.Represents builder) :
    (table.slot ty).2.Represents (builder.slot ty).2 := by
  cases present : builder.draft with
  | none =>
    have idle := represents.current_of_none present
    have asks : (table.slot ty).2 = table.freshReg.2 := by
      simp only [Indexed.slot, Indexed.freshReg, idle]
    have asks' : (builder.slot ty).2 = builder.freshReg.2 := by
      simp [Builder.slot, Builder.freshReg, Builder.mapDraft, present]
    rw [asks, asks']
    exact represents.freshReg
  | some draft =>
    obtain ⟨entry, others, shape⟩ := List.exists_cons_of_ne_nil (kept.draft draft present).opened
    have current := represents.current_of_draft present
    have blocks : draft.toFunction.blocks =
        { entry with instrs := draft.slotInstrs ++ entry.instrs } :: others :=
      Draft.placedBlocks_cons shape
    have asks' : (builder.slot ty).2 = { builder.freshReg.2 with
        draft := some { draft with slots := draft.slots ++ [(builder.freshReg.1, ty)] } } := by
      simp [Builder.slot, Builder.freshReg, Builder.mapDraft, present]
    have asks : (table.slot ty).2 = { table.freshReg.2 with
        current := some
          ({ draft with slots := draft.slots ++ [(builder.freshReg.1, ty)] } : Draft).toFunction
        slots := table.slots + 1 } := by
      simp only [Indexed.slot, Indexed.freshReg, current, blocks, represents.nextReg,
        represents.slots draft present]
      rw [← Draft.placedBlocks_slot shape]
      rfl
    rw [asks, asks']
    exact { represents.freshReg with
      current := rfl
      index := by
        intro other position
        have old := represents.index other position
        rw [Builder.startedIds_of_draft present] at old
        exact old
      slots := by
        rintro _ ⟨⟩
        rw [represents.slots draft present, List.length_append]
        rfl }

theorem Represents.perform (kept : builder.Kept journal) (represents : table.Represents builder)
    {call : Builder.Call} (room : builder.Room call) : (table.perform call).Represents (builder.perform call) := by
  cases call with
  | freshReg => exact represents.freshReg
  | freshBlock => exact represents.freshBlock
  | startFunction name arity => exact represents.startFunction name arity
  | finishFunction => exact represents.finishFunction
  | declareVariadic name params result => exact represents.declareVariadic name params result
  | addGlobal global => exact represents.addGlobal global
  | addText name text => exact represents.addGlobal _
  | createBlock hint => exact represents.createBlock hint kept
  | startBlock id => exact represents.startBlock kept
  | append id op _ =>
    have moved : builder.freshReg.2.Kept journal := Builder.freshReg_kept room.registers kept
    have same : table.freshReg.1 = builder.freshReg.1 :=
      congrArg (fun number => Reg.mk (Counter.toNat number)) represents.nextReg
    have asks : (table.append id op).2 = table.freshReg.2.emit id ⟨some table.freshReg.1, op⟩ := rfl
    rw [Indexed.perform, asks, same]
    exact represents.freshReg.emit ⟨some builder.freshReg.1, op⟩ moved
  | store id address value => exact represents.emit _ kept
  | slot ty => exact represents.slot ty kept
  | terminate id terminator => exact represents.modifyBlock (fun _ _ => rfl) (Block.close_id _) kept

end Indexed

end OliCompiler.Ir
