import OliCompiler.Ir.Llvm
import OliCompiler.Proofs.Builder
import OliCompiler.Proofs.Texts.Operands

/-!
The labels of a built function. A label is the hint of a block with the number of the block behind it and
nothing between them, so digits at the end of a hint can be read as the front of a longer number. Labels
are ambiguous in no other way, whatever a builder is asked.
-/

namespace OliCompiler.Ir

/-- Whether the hint of a block is that of another one with digits behind it, and the number of the other
is that of the block with the same digits in front. -/
def Block.Overlaps (block other : Block) : Prop :=
  ∃ hint digits, digits ≠ "" ∧ other.hint = some hint ∧ block.hint = some (hint ++ digits) ∧
    toString other.id.index = digits ++ toString block.id.index

namespace Function

/-- Whether a function can be read back from its labels: no two blocks have the same name, and a branch
to a block is written with the name of that block and of no other. -/
structure Unambiguous (function : Function) : Prop where
  names : (function.blocks.map Block.name).Nodup
  branches : ∀ block ∈ function.blocks, ∀ terminator ∈ block.terminator,
    ∀ target ∈ function.blocks, target.id ∈ terminator.successors →
      ∀ other ∈ function.blocks, Llvm.label function target.id = other.name ↔ other = target

/-- Whether the blocks of a function have distinct numbers, and all of them hints. -/
structure Numbered (function : Function) : Prop where
  ids : (function.blocks.map Block.id).Nodup
  hints : ∀ block ∈ function.blocks, ∃ hint, block.hint = some hint

end Function

section

variable {block other : Block} {function : Function}

theorem Block.name_of_hint {hint : String} (hinted : block.hint = some hint) :
    block.name = hint ++ toString block.id.index := by
  rw [name, hinted]

theorem Block.Overlaps.name_eq (overlaps : block.Overlaps other) : block.name = other.name := by
  obtain ⟨hint, digits, _, short, long, number⟩ := overlaps
  rw [name_of_hint long, name_of_hint short, number, String.append_assoc]

theorem Block.Overlaps.ne (overlaps : block.Overlaps other) : block ≠ other := by
  rintro rfl
  obtain ⟨hint, digits, some, short, long, _⟩ := overlaps
  have same := Option.some.inj (short.symm.trans long)
  exact some (String.append_eq_left_iff.mp same.symm)

/-- A block whose hint goes on where that of another ends has the rest of the other's number. -/
theorem Block.overlaps_of_toList {hint hint' : String} {digits : List Char}
    (short : other.hint = some hint) (long : block.hint = some hint')
    (extended : hint'.toList = hint.toList ++ digits)
    (number : (toString other.id.index).toList = digits ++ (toString block.id.index).toList)
    (apart : block.id ≠ other.id) : block.Overlaps other := by
  have number' : toString other.id.index = String.ofList digits ++ toString block.id.index := by
    rw [← String.toList_inj, number, String.toList_append, String.toList_ofList]
  refine ⟨hint, String.ofList digits, ?_, short, ?_, number'⟩
  · intro none
    rw [none, String.empty_append] at number'
    have same : block.id.index = other.id.index := toString_injective number'.symm
    exact apart (congrArg BlockId.mk same)
  · have whole : hint' = hint ++ String.ofList digits := by
      rw [← String.toList_inj, extended, String.toList_append, String.toList_ofList]
    rw [long, whole]

/-- Of two ways to split a text into a hint and a number, one has some digits in its hint that the other
has in its number. -/
theorem Block.overlaps_of_name_eq (hinted : ∃ hint, block.hint = some hint)
    (hinted' : ∃ hint, other.hint = some hint) (apart : block.id ≠ other.id)
    (same : block.name = other.name) : block.Overlaps other ∨ other.Overlaps block := by
  obtain ⟨hint, found⟩ := hinted
  obtain ⟨hint', found'⟩ := hinted'
  rw [name_of_hint found, name_of_hint found'] at same
  have chars := congrArg String.toList same
  rw [String.toList_append, String.toList_append] at chars
  rcases List.append_eq_append_iff.mp chars with ⟨digits, long, number⟩ | ⟨digits, long, number⟩
  · exact .inr (overlaps_of_toList found found' long number apart.symm)
  · exact .inl (overlaps_of_toList found' found long number apart)

namespace Function

variable (numbered : function.Numbered)

include numbered

theorem Numbered.eq_of_id (member : block ∈ function.blocks) (member' : other ∈ function.blocks)
    (same : block.id = other.id) : block = other :=
  List.inj_on_of_nodup_map numbered.ids member member' same

/-- The names of blocks are distinct exactly if no block overlaps another. -/
theorem Numbered.names_nodup_iff : (function.blocks.map Block.name).Nodup ↔
    ∀ block ∈ function.blocks, ∀ other ∈ function.blocks, ¬block.Overlaps other := by
  rw [List.nodup_map_iff_inj_on numbered.ids.of_map]
  constructor
  · intro distinct block member other member' overlaps
    exact overlaps.ne (distinct block member other member' overlaps.name_eq)
  · intro apart block member other member' same
    refine Decidable.byContradiction fun different => ?_
    have ids : block.id ≠ other.id := fun same => different (numbered.eq_of_id member member' same)
    rcases Block.overlaps_of_name_eq (numbered.hints block member) (numbered.hints other member') ids
      same with overlaps | overlaps
    · exact apart block member other member' overlaps
    · exact apart other member' block member overlaps

/-- A branch to a block of the function is written with its name. -/
theorem Numbered.label_eq {target : Block} (member : target ∈ function.blocks) :
    Llvm.label function target.id = target.name := by
  unfold Llvm.label
  split
  next block found =>
    have listed := List.mem_reverse.mp (List.mem_of_find?_eq_some found)
    have same : block.id = target.id := by simpa using List.find?_some found
    rw [numbered.eq_of_id listed member same]
  next none =>
    have absent := List.find?_eq_none.mp none target (List.mem_reverse.mpr member)
    simp at absent

theorem Numbered.unambiguous_iff : function.Unambiguous ↔
    ∀ block ∈ function.blocks, ∀ other ∈ function.blocks, ¬block.Overlaps other := by
  rw [← numbered.names_nodup_iff]
  refine ⟨Unambiguous.names, fun distinct => ⟨distinct, ?_⟩⟩
  intro _ _ _ _ target member _ other listed
  rw [numbered.label_eq member]
  constructor
  · intro same
    exact (List.inj_on_of_nodup_map distinct member listed same).symm
  · rintro rfl
    rfl

end Function

end

namespace Builder

variable {ν : Type}

/-- Whether the functions of a builder that are finished are numbered, and the blocks of the one in
progress have hints. -/
structure Hinted (builder : Builder ν) : Prop where
  finished : ∀ function ∈ builder.functions, function.Numbered
  draft : ∀ draft ∈ builder.draft, ∀ block ∈ draft.blocks, ∃ hint, block.hint = some hint

variable {builder : Builder ν} {journal : List Entry}

/-- The blocks of a function in progress keep their hints with the slots placed in front. -/
theorem hints_placedBlocks {draft : Draft} (hints : ∀ block ∈ draft.blocks, ∃ hint, block.hint = some hint) :
    ∀ block ∈ draft.placedBlocks, ∃ hint, block.hint = some hint := by
  cases shape : draft.blocks with
  | nil => simp [Draft.placedBlocks, shape]
  | cons entry others =>
    rw [shape] at hints
    rw [Draft.placedBlocks_cons shape]
    exact List.forall_mem_cons.mpr (List.forall_mem_cons.mp hints)

theorem modifyBlock_hinted {id : BlockId} {change : Block → Block} (hinted : builder.Hinted)
    (keeps : ∀ block, (change block).hint = block.hint) :
    (builder.mapDraft fun draft => draft.modifyBlock id change).Hinted where
  finished := hinted.finished
  draft := by
    intro draft present block member
    obtain ⟨old, listed, rfl⟩ := Option.map_eq_some_iff.mp present
    obtain ⟨before, inside, rfl⟩ := Draft.mem_modifyBlock.mp member
    obtain ⟨hint, found⟩ := hinted.draft old listed before inside
    refine ⟨hint, ?_⟩
    split
    · rw [keeps, found]
    · exact found

theorem startBlock_hinted {id : BlockId} (hinted : builder.Hinted) : (builder.startBlock id).Hinted := by
  by_cases waiting : id ∈ builder.pendingIds
  · obtain ⟨hint, _, starts⟩ := startBlock_of_mem waiting
    rw [starts]
    refine ⟨hinted.finished, fun draft present => ?_⟩
    obtain ⟨old, listed, rfl⟩ := Option.map_eq_some_iff.mp present
    refine List.forall_mem_append.mpr ⟨hinted.draft old listed, ?_⟩
    exact List.forall_mem_singleton.mpr ⟨hint, rfl⟩
  · rw [startBlock_of_notMem waiting]
    exact hinted

variable [Counter ν]

theorem empty_hinted (name : String) : (empty name : Builder ν).Hinted where
  finished := List.forall_mem_nil _
  draft _ absent := by cases absent

theorem finishFunction_hinted (kept : builder.Kept journal) (hinted : builder.Hinted) :
    builder.finishFunction.Hinted where
  finished := by
    refine List.forall_mem_append.mpr ⟨hinted.finished, fun function member => ?_⟩
    obtain ⟨draft, present, rfl⟩ := Option.map_eq_some_iff.mp (Option.mem_toList.mp member)
    have distinct := (List.nodup_append.mp kept.distinct).1
    rw [startedIds_of_draft present, ← Draft.map_id_placedBlocks] at distinct
    exact ⟨distinct, hints_placedBlocks (hinted.draft draft present)⟩
  draft _ absent := by cases absent

/-- Every call keeps the functions numbered. -/
theorem perform_hinted (kept : builder.Kept journal) (hinted : builder.Hinted) (call : Call) :
    (builder.perform call).Hinted := by
  cases call with
  | startFunction name arity =>
    rw [perform, (builder.startFunction_eq name arity).2]
    refine ⟨(finishFunction_hinted kept hinted).finished, ?_⟩
    rintro draft ⟨⟩
    exact List.forall_mem_singleton.mpr ⟨"entry", rfl⟩
  | finishFunction => exact finishFunction_hinted kept hinted
  | startBlock id => exact startBlock_hinted hinted
  | declareVariadic name params result =>
    refine ⟨List.forall_mem_append.mpr ⟨hinted.finished, List.forall_mem_singleton.mpr ?_⟩, hinted.draft⟩
    exact ⟨List.nodup_nil, List.forall_mem_nil _⟩
  | append | store | terminate => exact modifyBlock_hinted ⟨hinted.finished, hinted.draft⟩ fun _ => rfl
  | slot ty =>
    refine ⟨hinted.finished, fun draft present => ?_⟩
    obtain ⟨old, listed, rfl⟩ := Option.map_eq_some_iff.mp present
    exact hinted.draft old listed
  | freshReg | freshBlock | addGlobal | addText | createBlock => exact ⟨hinted.finished, hinted.draft⟩

end Builder

section

variable {ν : Type} [Counter ν] {name : String} {calls : List Builder.Call}

theorem Session.run_hinted (counted : Builder.Call.Counted ν calls) :
    (run name calls : Session ν).Kept ∧ (run name calls : Session ν).builder.Hinted := by
  have step : ∀ (session : Session ν) (call : Builder.Call), session.Kept ∧ session.builder.Hinted →
      session.builder.Room call →
        (session.perform call).Kept ∧ (session.perform call).builder.Hinted := by
    rintro session call ⟨kept, hinted⟩ room
    exact ⟨perform_kept kept room, Builder.perform_hinted kept.builder hinted call⟩
  exact run_holds step ⟨empty_kept name, Builder.empty_hinted name⟩ counted

/-- The functions of a finished module are unambiguous exactly as far as no block overlaps another one of
the same function. -/
theorem finish_unambiguous_iff {function : Function} (counted : Builder.Call.Counted ν calls)
    (built : function ∈ (Session.run name calls : Session ν).builder.finish.functions) :
    function.Unambiguous ↔
      ∀ block ∈ function.blocks, ∀ other ∈ function.blocks, ¬block.Overlaps other := by
  obtain ⟨kept, hinted⟩ := Session.run_hinted counted
  have finished := Builder.finishFunction_hinted kept.builder hinted
  exact (finished.finished function built).unambiguous_iff

end

section

/-- The calls for a function that branches on a condition to two blocks, the second of them so many
numbers behind the first. -/
def branching (first second : String) (between : Nat) : List Builder.Call :=
  .startFunction "main" 0 :: .createBlock first :: List.replicate between .freshBlock ++
    [.createBlock second, .append ⟨0⟩ (.compare .eq (.int 0) (.int 0)) rfl,
      .terminate ⟨0⟩ (.branch (.reg ⟨0⟩) ⟨1⟩ ⟨between + 2⟩), .startBlock ⟨1⟩,
      .terminate ⟨1⟩ (.ret (.int 7)), .startBlock ⟨between + 2⟩,
      .terminate ⟨between + 2⟩ (.ret (.int 8))]

theorem finish_unambiguous_iff_branching :
    Builder.Call.Counted UInt32 (branching "yes" "no" 0) ∧
    ∃ function ∈ (Session.run "m" (branching "yes" "no" 0) : Session UInt32).builder.finish.functions,
      (function.Unambiguous ↔
        ∀ block ∈ function.blocks, ∀ other ∈ function.blocks, ¬block.Overlaps other) := by
  have counted : Builder.Call.Counted UInt32 (branching "yes" "no" 0) := by decide
  have some : (Session.run "m" (branching "yes" "no" 0) : Session UInt32).builder.finish.functions ≠ [] := by
    decide
  obtain ⟨function, built⟩ := List.exists_mem_of_ne_nil _ some
  exact ⟨counted, function, built, finish_unambiguous_iff counted built⟩

/-- Blocks 1 and 11 with the hints `case1` and `case` have the same name. -/
theorem not_forall_finish_names_nodup :
    ¬∀ (name : String) (calls : List Builder.Call),
      ∀ function ∈ (Session.run name calls : Session UInt32).builder.finish.functions,
        (function.blocks.map Block.name).Nodup := by
  intro distinct
  have names := distinct "m" (branching "case1" "case" 9) _ List.mem_cons_self
  exact absurd names (by decide)

end

end OliCompiler.Ir
