import OliCompiler.Proofs.Builder.Agreement
import OliCompiler.Proofs.Builder.Counting

/-!
Builders are sound under any calls, as long as their counters do not start again. The invariant holds of an
empty module, every call that the counters have room for keeps it, and what is asked of the function in
progress follows from it. Counters of 32 bits have room for all calls that give fewer than 2³² registers and
blocks to a function; behind more of them a register is given out a second time.
-/

namespace OliCompiler.Ir

/-- The smallest of some numbers of blocks. -/
theorem least_eq_some_iff {ids : List BlockId} {id : BlockId} :
    (ids.map BlockId.index).min?.map BlockId.mk = some id ↔
      id ∈ ids ∧ ∀ other ∈ ids, id.index ≤ other.index := by
  rw [Option.map_eq_some_iff]
  constructor
  · rintro ⟨index, least, rfl⟩
    obtain ⟨member, below⟩ := List.min?_eq_some_iff.mp least
    obtain ⟨other, listed, rfl⟩ := List.mem_map.mp member
    exact ⟨listed, fun other listed => below _ (List.mem_map_of_mem listed)⟩
  · rintro ⟨member, below⟩
    refine ⟨id.index, List.min?_eq_some_iff.mpr ⟨List.mem_map_of_mem member, ?_⟩, rfl⟩
    exact List.forall_mem_map.mpr below

theorem least_eq_none_iff {ids : List BlockId} :
    (ids.map BlockId.index).min?.map BlockId.mk = none ↔ ∀ id, id ∉ ids := by
  rw [Option.map_eq_none_iff, List.min?_eq_none_iff, List.map_eq_nil_iff]
  exact List.eq_nil_iff_forall_not_mem

theorem least_congr {ids ids' : List BlockId} (same : ∀ id, id ∈ ids ↔ id ∈ ids') :
    (ids.map BlockId.index).min?.map BlockId.mk = (ids'.map BlockId.index).min?.map BlockId.mk := by
  ext id
  rw [least_eq_some_iff, least_eq_some_iff, same]
  simp only [same]

theorem mem_map_id_filter {blocks : List Block} {id : BlockId} :
    id ∈ (blocks.filter fun block => block.terminator.isNone).map Block.id ↔
      ∃ block ∈ blocks, block.id = id ∧ block.terminator = none := by
  simp only [List.mem_map, List.mem_filter, Option.isNone_iff_eq_none, and_assoc]
  exact exists_congr fun block => and_congr_right fun _ => and_comm

namespace Draft

variable {draft : Draft}

/-- The slots may be placed before unfinished blocks are looked for. -/
theorem exists_placedBlocks {id : BlockId} :
    (∃ block ∈ draft.placedBlocks, block.id = id ∧ block.terminator = none) ↔
      ∃ block ∈ draft.blocks, block.id = id ∧ block.terminator = none := by
  cases shape : draft.blocks with
  | nil => simp [placedBlocks, shape]
  | cons entry others => simp [placedBlocks_cons shape]

theorem assigned_toFunction (opened : draft.blocks ≠ []) : draft.toFunction.assigned = draft.regs := by
  obtain ⟨entry, others, shape⟩ := List.exists_cons_of_ne_nil opened
  have slots : draft.slotInstrs.filterMap Instr.result = draft.slots.map Prod.fst := by
    simp [slotInstrs, List.filterMap_map]
  have blocks : draft.toFunction.blocks =
      { entry with instrs := draft.slotInstrs ++ entry.instrs } :: others := placedBlocks_cons shape
  have params : draft.toFunction.params.map Prod.fst = draft.params := by
    simp [toFunction, Function.comp_def]
  rw [Function.assigned, regs, blocks, params, shape, List.flatMap_cons, List.flatMap_cons,
    List.filterMap_append, slots, List.append_assoc]
  rfl

end Draft

namespace Builder

variable {ν : Type} {builder : Builder ν}

/-- The numbers that the search for an unfinished block looks at. -/
def unfinishedIds (builder : Builder ν) : List BlockId :=
  (((builder.draft.map Draft.blocks).getD []).filter fun block => block.terminator.isNone).map Block.id ++
    builder.pendingIds

theorem unterminated?_eq :
    builder.unterminated? = (builder.unfinishedIds.map BlockId.index).min?.map BlockId.mk := rfl

theorem mem_unfinishedIds {id : BlockId} : id ∈ builder.unfinishedIds ↔ builder.Unfinished id := by
  rw [unfinishedIds, Unfinished, List.mem_append, or_comm]
  refine or_congr Iff.rfl ?_
  cases present : builder.draft with
  | none => simp [function?, present]
  | some draft =>
    have placed : (∃ function ∈ builder.function?, ∃ block ∈ function.blocks,
        block.id = id ∧ block.terminator = none) ↔
        ∃ block ∈ draft.placedBlocks, block.id = id ∧ block.terminator = none := by
      simp [function?, present, Draft.toFunction]
    rw [placed, Draft.exists_placedBlocks]
    exact mem_map_id_filter

theorem mapDraft_of_notMem {id : BlockId} (absent : id ∉ builder.startedIds) (change : Block → Block) :
    builder.mapDraft (fun draft => draft.modifyBlock id change) = builder := by
  rw [mapDraft]
  cases present : builder.draft with
  | none => rw [Option.map_none, ← present]
  | some draft =>
    rw [startedIds_of_draft present] at absent
    rw [Option.map_some, Draft.modifyBlock_of_notMem absent, ← present]

variable [Counter ν]

/-- Calls only add to the functions that are finished. -/
theorem functions_perform (call : Call) :
    builder.functions <+: (builder.perform call).functions := by
  cases call with
  | startFunction name arity =>
    rw [perform, (builder.startFunction_eq name arity).2]
    exact List.prefix_append _ _
  | finishFunction | declareVariadic => exact List.prefix_append _ _
  | startBlock id =>
    have same : (builder.startBlock id).functions = builder.functions := by
      by_cases waiting : id ∈ builder.pendingIds
      · obtain ⟨hint, _, starts⟩ := startBlock_of_mem waiting
        rw [starts]
      · rw [startBlock_of_notMem waiting]
    exact ⟨[], (List.append_nil _).trans same.symm⟩
  | _ => exact List.prefix_refl _

/-- A call on a block that is not started gives out a register at most. -/
theorem function?_perform {call : Call} {id : BlockId} (aims : call.target? = some id)
    (absent : id ∉ builder.startedIds) : (builder.perform call).function? = builder.function? := by
  cases call with
  | append _ op computes =>
    obtain rfl := Option.some.inj aims
    have moved : builder.perform (.append _ op computes) = builder.freshReg.2 :=
      mapDraft_of_notMem (show _ ∉ builder.freshReg.2.startedIds from absent) _
    rw [moved]
    rfl
  | store _ address value =>
    obtain rfl := Option.some.inj aims
    exact congrArg function? (mapDraft_of_notMem absent _)
  | terminate _ terminator =>
    obtain rfl := Option.some.inj aims
    exact congrArg function? (mapDraft_of_notMem absent _)
  | _ => cases aims

end Builder

namespace Session

variable {ν : Type} [Counter ν]

/-- What every call of a session keeps. -/
structure Kept (session : Session ν) : Prop where
  builder : session.builder.Kept session.journal
  table : session.table.Represents session.builder

variable {session : Session ν}

theorem perform_kept (kept : session.Kept) {call : Builder.Call} (room : session.builder.Room call) :
    (session.perform call).Kept where
  builder := Builder.perform_kept kept.builder room
  table := kept.table.perform kept.builder room

section

variable {holds : Session ν → Prop}
  (step : ∀ session call, holds session → session.builder.Room call → holds (session.perform call))

include step

/-- What every call with room keeps is kept by all calls that there is room for. -/
theorem foldl_holds {calls : List Builder.Call} (before : holds session)
    (rooms : session.builder.Rooms calls) : holds (calls.foldl perform session) := by
  induction calls generalizing session with
  | nil => exact before
  | cons call calls ih =>
    obtain ⟨room, rest⟩ := rooms
    exact ih (step session call before room) rest

theorem run_holds {name : String} {calls : List Builder.Call}
    (initial : holds ⟨.empty name, .empty name, []⟩) (counted : Builder.Call.Counted ν calls) :
    holds (run name calls) :=
  foldl_holds step initial (counted.rooms name)

end

theorem empty_kept (name : String) : Kept (⟨.empty name, .empty name, []⟩ : Session ν) where
  builder := Builder.empty_kept name
  table := Indexed.empty_represents name

theorem run_kept (name : String) {calls : List Builder.Call} (counted : Builder.Call.Counted ν calls) :
    (run name calls : Session ν).Kept :=
  run_holds (fun _ _ kept room => perform_kept kept room) (empty_kept name) counted

theorem functions_prefix (calls : List Builder.Call) :
    session.builder.functions <+: (calls.foldl perform session).builder.functions := by
  induction calls generalizing session with
  | nil => exact List.prefix_refl _
  | cons call calls ih =>
    have first : session.builder.functions <+: (session.perform call).builder.functions :=
      Builder.functions_perform call
    exact first.trans ih

theorem Kept.unterminated (kept : session.Kept) :
    session.table.unterminated? = session.builder.unterminated? := by
  refine least_congr fun id => ?_
  have pending : id ∈ session.table.pending.keys ↔ id ∈ session.builder.pendingIds := by
    rw [Std.HashMap.mem_keys, Std.HashMap.mem_iff_isSome_getElem?, kept.table.pending,
      Builder.mem_pendingIds]
  have current : session.table.current = session.builder.function? := kept.table.current
  rw [List.mem_append, pending, or_comm]
  refine Iff.trans (or_congr Iff.rfl ?_) Builder.mem_unfinishedIds.symm
  rw [current]
  cases session.builder.function? with
  | none => simp
  | some function => simpa using mem_map_id_filter

section

variable {draft : Draft} (kept : session.Kept) (present : session.builder.draft = some draft)

include kept present

theorem Kept.blocks : (draft.placedBlocks.map Block.id).Nodup ∧
    draft.placedBlocks.map Block.id = session.journal.filterMap Entry.started? := by
  have distinct := (List.nodup_append.mp kept.builder.distinct).1
  rw [Builder.startedIds_of_draft present] at distinct
  rw [Draft.map_id_placedBlocks]
  exact ⟨distinct, (kept.builder.draft draft present).order⟩

theorem Kept.slots : ∃ entry others, draft.placedBlocks = entry :: others ∧
    session.table.slots = (session.journal.filterMap Entry.slot?).length ∧
    entry.instrs.take session.table.slots = (session.journal.filterMap Entry.slot?).map
      (fun slot => ⟨some slot.1, .slot slot.2⟩) ∧
    (∀ instr ∈ entry.instrs.drop session.table.slots, instr.op.isSlot = false) ∧
    ∀ block ∈ others, ∀ instr ∈ block.instrs, instr.op.isSlot = false := by
  have drafted := kept.builder.draft draft present
  obtain ⟨entry, others, shape⟩ := List.exists_cons_of_ne_nil drafted.opened
  have plain := drafted.plain
  rw [shape] at plain
  obtain ⟨inEntry, inOthers⟩ := List.forall_mem_cons.mp plain
  have count : session.table.slots = draft.slotInstrs.length := by
    rw [kept.table.slots draft present, Draft.slotInstrs, List.length_map]
  refine ⟨_, others, Draft.placedBlocks_cons shape, ?_, ?_, ?_, inOthers⟩
  · rw [kept.table.slots draft present, drafted.slots]
  · rw [count, List.take_left, Draft.slotInstrs, drafted.slots]
  · rw [count, List.drop_left]
    exact inEntry

theorem Kept.contents : ∀ block ∈ draft.placedBlocks,
    block.instrs.filter (fun instr => !instr.op.isSlot) =
        session.journal.filterMap (Entry.emitted? block.id) ∧
      block.terminator = (session.journal.filterMap (Entry.ended? block.id)).head? := by
  have drafted := kept.builder.draft draft present
  obtain ⟨entry, others, shape⟩ := List.exists_cons_of_ne_nil drafted.opened
  have all : ∀ block ∈ draft.blocks, block.instrs.filter (fun instr => !instr.op.isSlot) =
      session.journal.filterMap (Entry.emitted? block.id) ∧
      block.terminator = (session.journal.filterMap (Entry.ended? block.id)).head? := by
    intro block member
    obtain ⟨instrs, ending⟩ := drafted.contents block member
    refine ⟨?_, ending⟩
    rw [← instrs]
    exact List.filter_eq_self.mpr fun instr inside => by simp [drafted.plain block member instr inside]
  have slots : draft.slotInstrs.filter (fun instr => !instr.op.isSlot) = [] := by
    refine List.filter_eq_nil_iff.mpr fun instr member => ?_
    obtain ⟨slot, _, rfl⟩ := List.mem_map.mp member
    exact Bool.false_ne_true
  rw [shape] at all
  obtain ⟨⟨instrs, ending⟩, rest⟩ := List.forall_mem_cons.mp all
  rw [Draft.placedBlocks_cons shape]
  refine List.forall_mem_cons.mpr ⟨⟨?_, ending⟩, rest⟩
  rw [List.filter_append, slots, List.nil_append]
  exact instrs

end

theorem Kept.sound (kept : session.Kept) : session.Sound where
  agree := ⟨kept.table.current, kept.table.functions, kept.table.globals, kept.table.nextReg,
    kept.table.nextBlock, kept.table.pending, kept.unterminated⟩
  blocks function found := by
    obtain ⟨draft, present, rfl⟩ := Option.map_eq_some_iff.mp found
    exact kept.blocks present
  index id position := by
    rw [kept.table.index]
    cases present : session.builder.draft with
    | none => simp [Builder.function?, Builder.startedIds, present]
    | some draft =>
      rw [Builder.startedIds_of_draft present, ← Draft.map_id_placedBlocks]
      simp only [Builder.function?, present, Option.map_some, Option.mem_some_iff, exists_eq_left']
      rfl
  pending id waiting function found := by
    obtain ⟨draft, present, rfl⟩ := Option.map_eq_some_iff.mp found
    intro member
    have started : id ∈ session.builder.startedIds := by
      rw [Builder.startedIds_of_draft present, ← Draft.map_id_placedBlocks]
      exact member
    exact (List.nodup_append.mp kept.builder.distinct).2.2 id started id waiting rfl
  registers function found := by
    obtain ⟨draft, present, rfl⟩ := Option.map_eq_some_iff.mp found
    rw [Draft.assigned_toFunction (kept.builder.draft draft present).opened]
    exact ⟨kept.builder.once draft present, kept.builder.given draft present⟩
  slots function found := by
    obtain ⟨draft, present, rfl⟩ := Option.map_eq_some_iff.mp found
    exact kept.slots present
  contents function found := by
    obtain ⟨draft, present, rfl⟩ := Option.map_eq_some_iff.mp found
    exact kept.contents present
  ignored call id aims absent := Builder.function?_perform aims absent
  finished := functions_prefix
  unterminated id := by
    rw [Builder.unterminated?_eq, least_eq_some_iff]
    simp only [Builder.mem_unfinishedIds]
  complete := by
    rw [Builder.unterminated?_eq, least_eq_none_iff]
    simp only [Builder.mem_unfinishedIds]

end Session

/-- A builder that counts without an end may be asked anything. -/
theorem unbounded_sound (name : String) (calls : List Builder.Call) :
    (Session.run name calls : Session Nat).Sound :=
  (Session.run_kept name (Builder.Call.counted_nat calls)).sound

/-- Whatever a builder is asked, and in whatever order, it makes of it what the journal says, unless it is
asked for 2³² registers or blocks of a function. -/
theorem builder_sound (name : String) {calls : List Builder.Call}
    (few : ∀ front, front <+: calls → front.foldl Builder.Call.registers 0 < UInt32.size ∧
      front.foldl Builder.Call.blocks 0 < UInt32.size) :
    (Session.run name calls : Session UInt32).Sound := by
  have counted : Builder.Call.Counted UInt32 calls := few
  exact (Session.run_kept name counted).sound

/-- Some blocks that are started in another order than they were created in. -/
def lateFirst : List Builder.Call :=
  [.startFunction "f" 0, .createBlock "late", .createBlock "early", .startBlock ⟨2⟩, .startBlock ⟨7⟩,
    .startBlock ⟨1⟩, .startBlock ⟨2⟩]

/-- Blocks stand as they were started, not as they were created, and a number that is not pending starts
nothing. -/
theorem builder_sound_lateFirst :
    (∀ front, front <+: lateFirst → front.foldl Builder.Call.registers 0 < UInt32.size ∧
      front.foldl Builder.Call.blocks 0 < UInt32.size) ∧
    (Session.run "m" lateFirst : Session UInt32).Sound ∧
    (Session.run "m" lateFirst : Session UInt32).builder.startedIds = [⟨0⟩, ⟨2⟩, ⟨1⟩] := by
  have counted : Builder.Call.Counted UInt32 lateFirst := by decide
  exact ⟨counted, builder_sound "m" counted, by decide⟩

namespace Builder

/-- Asking for registers moves the counter and nothing else. -/
theorem foldl_freshReg (builder : Builder UInt32) (n : Nat) :
    (List.replicate n Call.freshReg).foldl perform builder =
      { builder with nextReg := builder.nextReg + .ofNat n } := by
  induction n generalizing builder with
  | zero => simp
  | succ n ih =>
    have moved : builder.nextReg + 1 + UInt32.ofNat n = builder.nextReg + UInt32.ofNat (n + 1) := by
      rw [UInt32.ofNat_add, UInt32.add_assoc, UInt32.add_comm 1]
      rfl
    rw [List.replicate_succ, List.foldl_cons, ih]
    exact congrArg (fun nextReg => { builder with nextReg }) moved

end Builder

theorem Session.builder_foldl {ν : Type} [Counter ν] (session : Session ν) (calls : List Builder.Call) :
    (calls.foldl perform session).builder = calls.foldl Builder.perform session.builder := by
  induction calls generalizing session with
  | nil => rfl
  | cons call calls ih => exact ih _

def addition : Builder.Call := .append ⟨0⟩ (.arith .add (.int 1) (.int 1)) rfl

/-- Some calls that ask for every register of 32 bits behind that of a parameter, and for one more. -/
def allRegisters : List Builder.Call :=
  .startFunction "f" 1 :: (List.replicate (UInt32.size - 1) .freshReg ++ [addition])

/-- The bound is needed: the sum goes to the register of the parameter. -/
theorem not_forall_session_sound :
    ¬∀ (name : String) (calls : List Builder.Call), (Session.run name calls : Session UInt32).Sound := by
  intro sound
  let started : Builder UInt32 := (Builder.empty "m").perform (.startFunction "f" 1)
  let again : Builder UInt32 := { started with nextReg := 0 }.perform addition
  have zero : started.nextReg + .ofNat (UInt32.size - 1) = 0 := by decide
  have behind : (Session.run "m" allRegisters).builder = again := by
    rw [Session.run, Session.builder_foldl, allRegisters, List.foldl_cons, List.foldl_append,
      Builder.foldl_freshReg, List.foldl_cons, List.foldl_nil]
    exact congrArg (fun nextReg => ({ started with nextReg } : Builder UInt32).perform addition) zero
  have registers := (sound "m" allRegisters).registers
  rw [behind] at registers
  have given : ∀ function ∈ again.function?, function.assigned = [⟨0⟩, ⟨0⟩] := by decide
  obtain ⟨function, built⟩ := Option.isSome_iff_exists.mp (show again.function?.isSome by decide)
  have once := (registers function built).1
  rw [given function built] at once
  exact absurd once (by decide)

end OliCompiler.Ir
