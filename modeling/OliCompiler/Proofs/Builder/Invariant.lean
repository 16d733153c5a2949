import Mathlib.Data.List.Nodup
import OliCompiler.Proofs.Builder.Rules

/-!
What every call of a builder keeps. Started and pending blocks are distinct and were numbered before, the
registers of the function in progress are distinct and were given out before, and its blocks hold what the
journal says.
-/

namespace OliCompiler.Ir

section

variable {ν : Type} [Counter ν]

theorem Counter.toNat_zero {n : Nat} (reached : reaches ν n) : toNat (ofNat 0 : ν) = 0 :=
  toNat_ofNat (reaches_of_le (Nat.zero_le n) reached)

theorem Counter.toNat_one (reached : reaches ν 1) : toNat (next (ofNat 0 : ν)) = 1 := by
  have zero : toNat (ofNat 0 : ν) = 0 := toNat_zero reached
  rw [toNat_next (zero.symm ▸ reached), zero]

/-- The parameters of a function have the first registers. -/
theorem Counter.map_range {arity : Nat} (reached : reaches ν arity) :
    (List.range arity).map (fun index => (⟨toNat (ofNat index : ν)⟩ : Reg)) =
      (List.range arity).map Reg.mk := by
  refine List.map_congr_left fun index member => ?_
  have small := Nat.le_of_lt (List.mem_range.mp member)
  rw [toNat_ofNat (reaches_of_le small reached)]

end

namespace Block

/-- The block with one more instruction. -/
def push (instr : Instr) (block : Block) : Block := { block with instrs := block.instrs ++ [instr] }

/-- The block ended, unless it is ended already. -/
def close (terminator : Terminator) (block : Block) : Block :=
  { block with terminator := block.terminator.or (some terminator) }

@[simp]
theorem push_id (instr : Instr) (block : Block) : (block.push instr).id = block.id := rfl

@[simp]
theorem push_terminator (instr : Instr) (block : Block) :
    (block.push instr).terminator = block.terminator := rfl

@[simp]
theorem close_id (terminator : Terminator) (block : Block) : (block.close terminator).id = block.id := rfl

@[simp]
theorem close_instrs (terminator : Terminator) (block : Block) :
    (block.close terminator).instrs = block.instrs := rfl

end Block

namespace Draft

/-- The registers that a block assigns. -/
def resultsOf (block : Block) : List Reg := block.instrs.filterMap Instr.result

/-- The registers that a function in progress assigns: parameters, slots and results. -/
def regs (draft : Draft) : List Reg :=
  draft.params ++ (draft.slots.map Prod.fst ++
    draft.blocks.flatMap resultsOf)

/-- Whether the blocks and slots of a function in progress are those of a journal. -/
structure Kept (journal : List Entry) (draft : Draft) : Prop where
  opened : draft.blocks ≠ []
  order : draft.blocks.map Block.id = journal.filterMap Entry.started?
  slots : draft.slots = journal.filterMap Entry.slot?
  contents : ∀ block ∈ draft.blocks,
    block.instrs = journal.filterMap (Entry.emitted? block.id) ∧
      block.terminator = (journal.filterMap (Entry.ended? block.id)).head?
  /-- Nothing is noted of blocks that are not started. -/
  silent : ∀ id, id ∉ draft.blocks.map Block.id →
    journal.filterMap (Entry.emitted? id) = [] ∧ journal.filterMap (Entry.ended? id) = []
  plain : ∀ block ∈ draft.blocks, ∀ instr ∈ block.instrs, instr.op.isSlot = false

section

variable {draft : Draft} {id : BlockId} {change : Block → Block}

theorem map_id_modifyBlock (keeps : ∀ block, (change block).id = block.id) :
    (draft.modifyBlock id change).blocks.map Block.id = draft.blocks.map Block.id := by
  rw [modifyBlock, List.map_map]
  refine List.map_congr_left fun block _ => ?_
  by_cases same : block.id = id
  · simp [same, keeps]
  · simp [same]

theorem mem_modifyBlock {block : Block} :
    block ∈ (draft.modifyBlock id change).blocks ↔
      ∃ old ∈ draft.blocks, (if old.id = id then change old else old) = block := by
  rw [modifyBlock, List.mem_map]

theorem modifyBlock_of_notMem (absent : id ∉ draft.blocks.map Block.id) :
    draft.modifyBlock id change = draft := by
  have unchanged : draft.blocks.map (fun block => if block.id = id then change block else block) =
      draft.blocks.map fun block => block := by
    refine List.map_congr_left fun block member => if_neg ?_
    rintro rfl
    exact absent (List.mem_map_of_mem member)
  rw [modifyBlock, unchanged, List.map_id']

/-- Where numbers are distinct, exactly one block is changed. -/
theorem modifyBlock_split (change : Block → Block) (distinct : (draft.blocks.map Block.id).Nodup)
    (started : id ∈ draft.blocks.map Block.id) :
    ∃ before block after, draft.blocks = before ++ block :: after ∧ block.id = id ∧
      (draft.modifyBlock id change).blocks = before ++ change block :: after := by
  obtain ⟨block, member, rfl⟩ := List.mem_map.mp started
  obtain ⟨before, after, split⟩ := List.append_of_mem member
  refine ⟨before, block, after, split, rfl, ?_⟩
  rw [split, List.map_append, List.map_cons] at distinct
  have apart := List.nodup_middle.mp distinct
  have others : ∀ other ∈ before ++ after, other.id ≠ block.id := by
    intro other listed same
    refine (List.nodup_cons.mp apart).1 (List.mem_append.mpr ?_)
    rw [← same]
    exact (List.mem_append.mp listed).imp List.mem_map_of_mem List.mem_map_of_mem
  have unchanged : ∀ part : List Block, part ⊆ before ++ after →
      part.map (fun other => if other.id = block.id then change other else other) = part := by
    intro part within
    refine (List.map_congr_left fun other listed => ?_).trans (List.map_id' part)
    exact if_neg (others other (within listed))
  rw [modifyBlock, split, List.map_append, List.map_cons, if_pos rfl,
    unchanged before (List.subset_append_left _ _), unchanged after (List.subset_append_right _ _)]

theorem regs_modifyBlock (keeps : ∀ block, (change block).instrs = block.instrs) :
    (draft.modifyBlock id change).regs = draft.regs := by
  have same : ∀ block, resultsOf (if block.id = id then change block else block) = resultsOf block := by
    intro block
    rw [resultsOf, resultsOf]
    split
    · rw [keeps]
    · rfl
  rw [regs, regs]
  simp only [modifyBlock, List.flatMap_map, same]

/-- An instruction that is emitted brings its result, and nothing else is assigned. -/
theorem regs_emit (instr : Instr) (distinct : (draft.blocks.map Block.id).Nodup)
    (started : id ∈ draft.blocks.map Block.id) :
    (draft.modifyBlock id (.push instr)).regs.Perm (instr.result.toList ++ draft.regs) := by
  obtain ⟨before, block, after, split, _, changed⟩ := modifyBlock_split (.push instr) distinct started
  have front : draft.regs = draft.params ++ (draft.slots.map Prod.fst ++
      (before.flatMap resultsOf ++ (resultsOf block ++ after.flatMap resultsOf))) := by
    rw [regs, split, List.flatMap_append, List.flatMap_cons]
  have behind : (draft.modifyBlock id (.push instr)).regs =
      draft.params ++ (draft.slots.map Prod.fst ++ (before.flatMap resultsOf ++
        ((resultsOf block ++ instr.result.toList) ++ after.flatMap resultsOf))) := by
    rw [regs, changed, List.flatMap_append, List.flatMap_cons]
    cases given : instr.result <;> simp [modifyBlock, resultsOf, Block.push, given]
  rw [front, behind]
  cases instr.result with
  | none => simp
  | some reg =>
    have moved := @List.perm_middle _ reg
      (draft.params ++ draft.slots.map Prod.fst ++ before.flatMap resultsOf ++ resultsOf block)
      (after.flatMap resultsOf)
    simpa using moved

end

section

variable {draft : Draft} {journal : List Entry}

/-- A block that is started late is empty, as the journal has nothing of it. -/
theorem Kept.start {id : BlockId} {hint : String} (kept : draft.Kept journal)
    (fresh : id ∉ draft.blocks.map Block.id) :
    Kept (journal ++ [.started id])
      { draft with blocks := draft.blocks ++ [⟨id, some hint, [], none⟩] } where
  opened := by simp
  order := by simp [kept.order, Entry.started?]
  slots := by simp [kept.slots, List.filterMap_cons, Entry.slot?]
  contents := by
    refine List.forall_mem_append.mpr ⟨fun block member => ?_, List.forall_mem_singleton.mpr ?_⟩
    · simpa [List.filterMap_cons, Entry.emitted?, Entry.ended?] using kept.contents block member
    · obtain ⟨noInstrs, noEnds⟩ := kept.silent id fresh
      simp [List.filterMap_cons, Entry.emitted?, Entry.ended?, noInstrs, noEnds]
  silent other absent := by
    have old : other ∉ draft.blocks.map Block.id := fun member =>
      absent (by rw [List.map_append]; exact List.mem_append_left _ member)
    simpa [List.filterMap_cons, Entry.emitted?, Entry.ended?] using kept.silent other old
  plain := by
    refine List.forall_mem_append.mpr ⟨kept.plain, List.forall_mem_singleton.mpr ?_⟩
    exact List.forall_mem_nil _

theorem Kept.slot (reg : Reg) (ty : Ty) (kept : draft.Kept journal) :
    Kept (journal ++ [.slot reg ty]) { draft with slots := draft.slots ++ [(reg, ty)] } where
  opened := kept.opened
  order := by simp [kept.order, List.filterMap_cons, Entry.started?]
  slots := by simp [kept.slots, Entry.slot?]
  contents block member := by
    simpa [List.filterMap_cons, Entry.emitted?, Entry.ended?] using kept.contents block member
  silent id absent := by
    simpa [List.filterMap_cons, Entry.emitted?, Entry.ended?] using kept.silent id absent
  plain := kept.plain

variable {id : BlockId} (started : id ∈ draft.blocks.map Block.id)

include started

theorem Kept.emit {instr : Instr} (plain : instr.op.isSlot = false) (kept : draft.Kept journal) :
    Kept (journal ++ [.emitted id instr]) (draft.modifyBlock id (.push instr)) where
  opened := by simpa [modifyBlock] using kept.opened
  order := by
    rw [map_id_modifyBlock (Block.push_id instr), kept.order]
    simp [List.filterMap_cons, Entry.started?]
  slots := by simpa [modifyBlock, List.filterMap_cons, Entry.slot?] using kept.slots
  contents block member := by
    obtain ⟨old, listed, rfl⟩ := mem_modifyBlock.mp member
    obtain ⟨instrs, terminator⟩ := kept.contents old listed
    by_cases same : old.id = id
    · subst same
      simp [Block.push, instrs, terminator, List.filterMap_cons, Entry.emitted?, Entry.ended?]
    · simp [same, Ne.symm same, instrs, terminator, List.filterMap_cons, Entry.emitted?, Entry.ended?]
  silent other absent := by
    rw [map_id_modifyBlock (Block.push_id instr)] at absent
    have apart : id ≠ other := by rintro rfl; exact absent started
    simpa [List.filterMap_cons, Entry.emitted?, Entry.ended?, apart] using kept.silent other absent
  plain block member := by
    obtain ⟨old, listed, rfl⟩ := mem_modifyBlock.mp member
    by_cases same : old.id = id
    · rw [if_pos same]
      exact List.forall_mem_append.mpr
        ⟨kept.plain old listed, List.forall_mem_singleton.mpr plain⟩
    · rw [if_neg same]
      exact kept.plain old listed

/-- Of several ends given to a block the first stays. -/
theorem Kept.terminate (terminator : Terminator) (kept : draft.Kept journal) :
    Kept (journal ++ [.ended id terminator]) (draft.modifyBlock id (.close terminator)) where
  opened := by simpa [modifyBlock] using kept.opened
  order := by
    rw [map_id_modifyBlock (Block.close_id terminator), kept.order]
    simp [List.filterMap_cons, Entry.started?]
  slots := by simpa [modifyBlock, List.filterMap_cons, Entry.slot?] using kept.slots
  contents block member := by
    obtain ⟨old, listed, rfl⟩ := mem_modifyBlock.mp member
    obtain ⟨instrs, ending⟩ := kept.contents old listed
    by_cases same : old.id = id
    · subst same
      simp [Block.close, instrs, ending, List.filterMap_cons, Entry.emitted?, Entry.ended?,
        List.head?_append]
    · simp [same, Ne.symm same, instrs, ending, List.filterMap_cons, Entry.emitted?, Entry.ended?]
  silent other absent := by
    rw [map_id_modifyBlock (Block.close_id terminator)] at absent
    have apart : id ≠ other := by rintro rfl; exact absent started
    simpa [List.filterMap_cons, Entry.emitted?, Entry.ended?, apart] using kept.silent other absent
  plain block member := by
    obtain ⟨old, listed, rfl⟩ := mem_modifyBlock.mp member
    by_cases same : old.id = id
    · rw [if_pos same]
      exact kept.plain old listed
    · rw [if_neg same]
      exact kept.plain old listed

end

end Draft

namespace Builder

variable {ν : Type} {builder builder' : Builder ν} {journal : List Entry} {id : BlockId}

theorem startedIds_of_draft {draft : Draft} (present : builder.draft = some draft) :
    builder.startedIds = draft.blocks.map Block.id := by
  rw [startedIds, present]
  rfl

theorem mem_pendingIds : id ∈ builder.pendingIds ↔ (builder.pending.lookup id).isSome = true := by
  simp [pendingIds, List.lookup_isSome_iff]

theorem startBlock_of_notMem (absent : id ∉ builder.pendingIds) : builder.startBlock id = builder := by
  rw [mem_pendingIds, Option.not_isSome_iff_eq_none] at absent
  rw [startBlock, absent]

theorem startBlock_of_mem (waiting : id ∈ builder.pendingIds) :
    ∃ hint, builder.pending.lookup id = some hint ∧ builder.startBlock id =
      { builder with
        pending := builder.pending.filter fun (other, _) => other ≠ id
        draft := builder.draft.map fun draft =>
          { draft with blocks := draft.blocks ++ [⟨id, some hint, [], none⟩] } } := by
  obtain ⟨hint, found⟩ := Option.isSome_iff_exists.mp (mem_pendingIds.mp waiting)
  refine ⟨hint, found, ?_⟩
  rw [startBlock, found]
  rfl

theorem pendingIds_startBlock (waiting : id ∈ builder.pendingIds) :
    (builder.startBlock id).pendingIds = builder.pendingIds.filter (· ≠ id) := by
  obtain ⟨hint, _, starts⟩ := startBlock_of_mem waiting
  rw [starts]
  simp only [pendingIds, List.filter_map]
  rfl

variable [Counter ν]

/-- What holds of a builder after any calls. -/
structure Kept (builder : Builder ν) (journal : List Entry) : Prop where
  distinct : (builder.startedIds ++ builder.pendingIds).Nodup
  numbered : ∀ id ∈ builder.startedIds ++ builder.pendingIds,
    id.index < Counter.toNat builder.nextBlock
  draft : ∀ draft ∈ builder.draft, draft.Kept journal
  once : ∀ draft ∈ builder.draft, draft.regs.Nodup
  given : ∀ draft ∈ builder.draft, ∀ reg ∈ draft.regs, reg.index < Counter.toNat builder.nextReg

/-- Whether the counters reach behind a call what they are to reach. -/
structure Room (builder : Builder ν) (call : Call) : Prop where
  registers : Counter.reaches ν (call.registers (Counter.toNat builder.nextReg))
  blocks : Counter.reaches ν (call.blocks (Counter.toNat builder.nextBlock))

theorem empty_kept (name : String) : (empty name : Builder ν).Kept [] where
  distinct := List.nodup_nil
  numbered := List.forall_mem_nil _
  draft _ absent := by cases absent
  once _ absent := by cases absent
  given _ absent := by cases absent

/-- Calls that give out numbers or add to the module leave the function in progress alone. -/
theorem Kept.quiet (kept : builder.Kept journal) (draft : builder'.draft = builder.draft)
    (pending : builder'.pending = builder.pending) (regs : Counter.toNat builder.nextReg ≤ Counter.toNat builder'.nextReg)
    (blocks : Counter.toNat builder.nextBlock ≤ Counter.toNat builder'.nextBlock) :
    builder'.Kept journal := by
  have started : builder'.startedIds = builder.startedIds := by rw [startedIds, startedIds, draft]
  have waiting : builder'.pendingIds = builder.pendingIds := by rw [pendingIds, pendingIds, pending]
  constructor
  · rw [started, waiting]
    exact kept.distinct
  · rw [started, waiting]
    exact fun id member => Nat.lt_of_lt_of_le (kept.numbered id member) blocks
  · rw [draft]
    exact kept.draft
  · rw [draft]
    exact kept.once
  · rw [draft]
    exact fun draft present reg member =>
      Nat.lt_of_lt_of_le (kept.given draft present reg member) regs

/-- The next register leaves the function in progress alone. -/
theorem freshReg_kept (room : Counter.reaches ν (Counter.toNat builder.nextReg + 1))
    (kept : builder.Kept journal) : builder.freshReg.2.Kept journal :=
  kept.quiet rfl rfl (Counter.toNat_next room ▸ Nat.le_succ _) (Nat.le_refl _)

theorem createBlock_kept (hint : String)
    (room : Counter.reaches ν (Counter.toNat builder.nextBlock + 1)) (kept : builder.Kept journal) :
    (builder.createBlock hint).2.Kept journal := by
  have waiting : (builder.createBlock hint).2.pendingIds =
      builder.pendingIds ++ [⟨Counter.toNat builder.nextBlock⟩] := by
    simp [createBlock, freshBlock, pendingIds]
  have next : Counter.toNat (builder.createBlock hint).2.nextBlock =
      Counter.toNat builder.nextBlock + 1 := Counter.toNat_next room
  have fresh : (⟨Counter.toNat builder.nextBlock⟩ : BlockId) ∉ builder.startedIds ++ builder.pendingIds :=
    fun member => Nat.lt_irrefl _ (kept.numbered _ member)
  have quiet : (builder.createBlock hint).2.startedIds = builder.startedIds := rfl
  refine ⟨?_, ?_, kept.draft, kept.once, kept.given⟩
  · rw [waiting, quiet, ← List.append_assoc]
    refine kept.distinct.append (List.nodup_singleton _) ?_
    exact List.disjoint_singleton.mpr fresh
  · rw [waiting, quiet, next, ← List.append_assoc]
    refine List.forall_mem_append.mpr ⟨fun id member => ?_, List.forall_mem_singleton.mpr ?_⟩
    · exact Nat.lt_succ_of_lt (kept.numbered id member)
    · exact Nat.lt_succ_self _

/-- The function in progress may change as long as its blocks keep their numbers. -/
theorem Kept.mapDraft {change : Draft → Draft} {journal' : List Entry} (kept : builder.Kept journal)
    (ids : ∀ draft ∈ builder.draft, (change draft).blocks.map Block.id = draft.blocks.map Block.id)
    (changed : ∀ draft ∈ builder.draft, (change draft).Kept journal')
    (once : ∀ draft ∈ builder.draft, (change draft).regs.Nodup)
    (given : ∀ draft ∈ builder.draft, ∀ reg ∈ (change draft).regs,
      reg.index < Counter.toNat builder.nextReg) :
    (builder.mapDraft change).Kept journal' := by
  have started : (builder.mapDraft change).startedIds = builder.startedIds := by
    cases present : builder.draft with
    | none => simp [startedIds, Builder.mapDraft, present]
    | some draft => simpa [startedIds, Builder.mapDraft, present] using ids draft present
  refine ⟨started ▸ kept.distinct, started ▸ kept.numbered, ?_, ?_, ?_⟩
  · intro draft present
    obtain ⟨old, listed, rfl⟩ := Option.map_eq_some_iff.mp present
    exact changed old listed
  · intro draft present
    obtain ⟨old, listed, rfl⟩ := Option.map_eq_some_iff.mp present
    exact once old listed
  · intro draft present
    obtain ⟨old, listed, rfl⟩ := Option.map_eq_some_iff.mp present
    exact given old listed

theorem emit_kept {instr : Instr} (plain : instr.op.isSlot = false) (kept : builder.Kept journal)
    (fresh : ∀ reg ∈ instr.result, reg.index < Counter.toNat builder.nextReg ∧
      ∀ draft ∈ builder.draft, reg ∉ draft.regs) :
    (builder.emit id instr).Kept
      (journal ++ if id ∈ builder.startedIds then [.emitted id instr] else []) := by
  refine kept.mapDraft (fun draft _ => Draft.map_id_modifyBlock (Block.push_id instr)) ?_ ?_ ?_
  all_goals
    intro draft present
    have ids := startedIds_of_draft present
    have distinct := (List.nodup_append.mp kept.distinct).1
    rw [ids] at distinct
    by_cases started : id ∈ draft.blocks.map Block.id
  · rw [ids, if_pos started]
    exact (kept.draft draft present).emit started plain
  · rw [ids, if_neg started, List.append_nil, Draft.modifyBlock_of_notMem started]
    exact kept.draft draft present
  · refine (Draft.regs_emit instr distinct started).nodup_iff.mpr ?_
    refine List.Nodup.append (by cases instr.result <;> simp) (kept.once draft present) ?_
    exact fun reg result => (fresh reg (Option.mem_toList.mp result)).2 draft present
  · rw [Draft.modifyBlock_of_notMem started]
    exact kept.once draft present
  · intro reg member
    rcases List.mem_append.mp ((Draft.regs_emit instr distinct started).mem_iff.mp member) with
      result | old
    · exact (fresh reg (Option.mem_toList.mp result)).1
    · exact kept.given draft present reg old
  · rw [Draft.modifyBlock_of_notMem started]
    exact kept.given draft present

theorem append_kept {op : Op} (computes : op.computes = true)
    (room : Counter.reaches ν (Counter.toNat builder.nextReg + 1)) (kept : builder.Kept journal) :
    (builder.append id op).2.Kept (builder.record journal (.append id op computes)) := by
  refine emit_kept (by cases op <;> first | rfl | cases computes) (freshReg_kept room kept) ?_
  rintro reg ⟨⟩
  refine ⟨Counter.toNat_next room ▸ Nat.lt_succ_self _, fun draft present member => ?_⟩
  exact Nat.lt_irrefl _ (kept.given draft present _ member)

theorem store_kept {address value : Operand} (kept : builder.Kept journal) :
    (builder.store id address value).Kept (builder.record journal (.store id address value)) :=
  emit_kept rfl kept fun reg absent => by cases absent

theorem terminate_kept {terminator : Terminator} (kept : builder.Kept journal) :
    (builder.terminate id terminator).Kept
      (journal ++ if id ∈ builder.startedIds then [.ended id terminator] else []) := by
  have same : ∀ draft : Draft, (draft.modifyBlock id (.close terminator)).regs = draft.regs :=
    fun draft => Draft.regs_modifyBlock (Block.close_instrs terminator)
  refine kept.mapDraft (fun draft _ => Draft.map_id_modifyBlock (Block.close_id terminator)) ?_
    (fun draft present => same draft ▸ kept.once draft present)
    (fun draft present => same draft ▸ kept.given draft present)
  intro draft present
  have ids := startedIds_of_draft present
  by_cases started : id ∈ draft.blocks.map Block.id
  · rw [ids, if_pos started]
    exact (kept.draft draft present).terminate started terminator
  · rw [ids, if_neg started, List.append_nil, Draft.modifyBlock_of_notMem started]
    exact kept.draft draft present

theorem slot_kept {ty : Ty} (room : Counter.reaches ν (Counter.toNat builder.nextReg + 1))
    (kept : builder.Kept journal) :
    (builder.slot ty).2.Kept (builder.record journal (.slot ty)) := by
  have next : Counter.toNat builder.freshReg.2.nextReg = Counter.toNat builder.nextReg + 1 :=
    Counter.toNat_next room
  have perm : ∀ draft : Draft, ({ draft with
      slots := draft.slots ++ [(builder.freshReg.1, ty)] } : Draft).regs.Perm
        (builder.freshReg.1 :: draft.regs) := by
    intro draft
    have front := @List.perm_middle _ builder.freshReg.1
      (draft.params ++ draft.slots.map Prod.fst) (draft.blocks.flatMap Draft.resultsOf)
    simpa [Draft.regs] using front
  refine (freshReg_kept room kept).mapDraft (fun _ _ => rfl) ?_ ?_ ?_
  · exact fun draft present => (kept.draft draft present).slot _ ty
  · intro draft present
    refine (perm draft).nodup_iff.mpr (List.nodup_cons.mpr ⟨fun member => ?_, kept.once draft present⟩)
    exact Nat.lt_irrefl _ (kept.given draft present _ member)
  · intro draft present reg member
    rw [next]
    rcases List.mem_cons.mp ((perm draft).mem_iff.mp member) with rfl | old
    · exact Nat.lt_succ_self _
    · exact Nat.lt_succ_of_lt (kept.given draft present reg old)

theorem idle_kept (idle : builder.draft = none) (forgotten : builder.pending = []) :
    builder.Kept journal := by
  have started : builder.startedIds = [] := by rw [startedIds, idle]; rfl
  have waiting : builder.pendingIds = [] := by rw [pendingIds, forgotten]; rfl
  constructor
  · rw [started, waiting]
    exact List.nodup_nil
  · rw [started, waiting]
    exact List.forall_mem_nil _
  all_goals
    intro draft present
    rw [idle] at present
    cases present

/-- A new function has its parameters and an empty entry block, and it forgets all that was pending. -/
theorem startFunction_eq (name : String) (arity : Nat) :
    (builder.startFunction name arity).1.2 = ⟨Counter.toNat (Counter.ofNat 0 : ν)⟩ ∧
    (builder.startFunction name arity).2 =
      { builder.finishFunction with
        nextReg := Counter.ofNat arity
        nextBlock := Counter.next (Counter.ofNat 0)
        draft := some ⟨name, (List.range arity).map fun index => ⟨Counter.toNat (Counter.ofNat index : ν)⟩,
          [], [⟨⟨Counter.toNat (Counter.ofNat 0 : ν)⟩, some "entry", [], none⟩]⟩ } := by
  simp [startFunction, createBlock, freshBlock, startBlock, finishFunction, mapDraft]

theorem startFunction_kept (name : String) {arity : Nat} (few : Counter.reaches ν arity)
    (one : Counter.reaches ν 1) :
    (builder.startFunction name arity).2.Kept [.started (builder.startFunction name arity).1.2] := by
  obtain ⟨entry, started⟩ := builder.startFunction_eq name arity
  rw [entry, started, Counter.map_range few, Counter.toNat_zero one]
  constructor
  · exact List.nodup_singleton _
  · exact List.forall_mem_singleton.mpr (Counter.toNat_one one ▸ Nat.zero_lt_one)
  · rintro draft ⟨⟩
    refine ⟨List.cons_ne_nil _ _, rfl, rfl, List.forall_mem_singleton.mpr ⟨rfl, rfl⟩,
      fun id _ => ⟨rfl, rfl⟩, List.forall_mem_singleton.mpr (List.forall_mem_nil _)⟩
  · rintro draft ⟨⟩
    simpa [Draft.regs, Draft.resultsOf] using
      List.nodup_range.map fun one other same => congrArg Reg.index same
  · rintro draft ⟨⟩ reg member
    obtain ⟨index, small, rfl⟩ : ∃ index < arity, Reg.mk index = reg := by
      simpa [Draft.regs, Draft.resultsOf] using member
    exact (Counter.toNat_ofNat few).symm ▸ small

/-- A block that is started moves from those that are pending to those of the function. -/
theorem ids_startBlock {draft : Draft} (kept : builder.Kept journal) (waiting : id ∈ builder.pendingIds)
    (present : builder.draft = some draft) :
    ((builder.startBlock id).startedIds ++ (builder.startBlock id).pendingIds).Perm
      (builder.startedIds ++ builder.pendingIds) := by
  obtain ⟨hint, _, starts⟩ := startBlock_of_mem waiting
  have started : (builder.startBlock id).startedIds = builder.startedIds ++ [id] := by
    simp [starts, startedIds, present]
  have rest : builder.pendingIds.filter (· ≠ id) = builder.pendingIds.erase id := by
    rw [(List.nodup_append.mp kept.distinct).2.1.erase_eq_filter]
    exact List.filter_congr fun other _ => by by_cases same : other = id <;> simp [same]
  rw [started, pendingIds_startBlock waiting, List.append_assoc, List.singleton_append, rest]
  exact (List.perm_cons_erase waiting).symm.append_left _

theorem startBlock_kept (kept : builder.Kept journal) :
    (builder.startBlock id).Kept
      (journal ++ if id ∈ builder.pendingIds then [.started id] else []) := by
  by_cases waiting : id ∈ builder.pendingIds
  · rw [if_pos waiting]
    obtain ⟨hint, _, starts⟩ := startBlock_of_mem waiting
    cases present : builder.draft with
    | none =>
      -- No function is in progress, so the block is forgotten.
      have none' : (builder.startBlock id).startedIds = [] := by simp [starts, startedIds, present]
      have among : (builder.pendingIds.filter (· ≠ id)).Sublist
          (builder.startedIds ++ builder.pendingIds) :=
        List.filter_sublist.trans (List.sublist_append_right _ _)
      constructor
      · rw [none', pendingIds_startBlock waiting]
        exact kept.distinct.sublist among
      · rw [none', pendingIds_startBlock waiting, starts]
        exact fun other member => kept.numbered other (among.subset member)
      all_goals
        rw [starts, present]
        intro draft absent
        cases absent
    | some draft =>
      have moved := ids_startBlock kept waiting present
      have regs : ({ draft with
          blocks := draft.blocks ++ [⟨id, some hint, [], none⟩] } : Draft).regs = draft.regs := by
        simp [Draft.regs, Draft.resultsOf]
      have fresh : id ∉ draft.blocks.map Block.id := by
        rw [← startedIds_of_draft present]
        exact fun member => (List.nodup_append.mp kept.distinct).2.2 _ member _ waiting rfl
      refine ⟨moved.nodup_iff.mpr kept.distinct, fun other member => ?_, ?_, ?_, ?_⟩
      · rw [starts]
        exact kept.numbered other (moved.mem_iff.mp member)
      all_goals
        rw [starts, present]
        rintro _ ⟨⟩
      · exact (kept.draft draft present).start fresh
      · exact regs ▸ kept.once draft present
      · exact regs ▸ kept.given draft present
  · rw [if_neg waiting, List.append_nil, startBlock_of_notMem waiting]
    exact kept

theorem Kept.silent (kept : builder.Kept journal) : builder.Kept (journal ++ []) :=
  (List.append_nil journal).symm ▸ kept

/-- Every call that the counters have room for keeps the invariant. -/
theorem perform_kept (kept : builder.Kept journal) {call : Call} (room : builder.Room call) :
    (builder.perform call).Kept (builder.record journal call) := by
  cases call with
  | startFunction name arity => exact startFunction_kept name room.registers room.blocks
  | startBlock id => exact startBlock_kept kept
  | append id op computes => exact append_kept computes room.registers kept
  | store id address value => exact store_kept kept
  | slot ty => exact slot_kept room.registers kept
  | terminate id terminator => exact terminate_kept kept
  | finishFunction => exact idle_kept rfl rfl
  | createBlock hint => exact (createBlock_kept hint room.blocks kept).silent
  | freshReg => exact (freshReg_kept room.registers kept).silent
  | freshBlock =>
    refine Kept.silent ?_
    exact kept.quiet rfl rfl (Nat.le_refl _) (Counter.toNat_next room.blocks ▸ Nat.le_succ _)
  | declareVariadic | addGlobal | addText =>
    refine Kept.silent ?_
    exact kept.quiet rfl rfl (Nat.le_refl _) (Nat.le_refl _)

/-- A call moves the counters as far as it is to. -/
theorem counters_perform {call : Call} (room : builder.Room call) :
    Counter.toNat (builder.perform call).nextReg = call.registers (Counter.toNat builder.nextReg) ∧
      Counter.toNat (builder.perform call).nextBlock =
        call.blocks (Counter.toNat builder.nextBlock) := by
  cases call with
  | startFunction name arity =>
    rw [perform, (builder.startFunction_eq name arity).2]
    exact ⟨Counter.toNat_ofNat room.registers, Counter.toNat_one room.blocks⟩
  | startBlock id =>
    by_cases waiting : id ∈ builder.pendingIds
    · obtain ⟨hint, _, starts⟩ := startBlock_of_mem waiting
      rw [perform, starts]
      exact ⟨rfl, rfl⟩
    · rw [perform, startBlock_of_notMem waiting]
      exact ⟨rfl, rfl⟩
  | freshReg | append | slot => exact ⟨Counter.toNat_next room.registers, rfl⟩
  | freshBlock | createBlock => exact ⟨rfl, Counter.toNat_next room.blocks⟩
  | _ => exact ⟨rfl, rfl⟩

end Builder

end OliCompiler.Ir
