import OliCompiler.Proofs.Lowering.Chains
import Mathlib.Data.List.Count

/-!
Unreachable blocks. Lowering tracks by a flag whether control comes to the block behind an `if`, and ends
the block as unreachable where it does not. The flag agrees with the graph of the finished function: a
block is marked exactly if it stands behind an `if` and no block leads to it. Besides these only the entry,
blocks of dead code and updates of loops have no predecessor.
-/

namespace OliCompiler

open Ir

namespace Ir.Function

/-- Whether a block of the function ends with a jump or branch to a block. -/
def LeadsTo (function : Function) (id : BlockId) : Prop :=
  ∃ block ∈ function.blocks, ∃ terminator ∈ block.terminator, id ∈ terminator.successors

/-- Whether the unreachable blocks of a function are those that are not reached behind an `if`, in a
function whose source has some number of chains of `if` and `else if`. -/
structure MergesMarked (function : Function) (chains : Nat) : Prop where
  unreachable : ∀ block ∈ function.blocks, block.terminator = some .unreachable ↔
    block.hint = some Lower.mergeHint ∧ ¬function.LeadsTo block.id
  chains : (function.blocks.map Block.hint).count (some Lower.mergeHint) = chains
  others : ∀ block ∈ function.blocks, ¬function.LeadsTo block.id →
    block.hint = some Lower.mergeHint ∨ function.entry? = some block ∨
      ∃ hint ∈ Lower.looseHints, block.hint = some hint

end Ir.Function

namespace Lower

variable {slots : List Reg} {name : String} {params : List Reg} {code front : Code} {falls : Bool}
  {n n' k : Nat} {stmts : List Scoped.Stmt}

theorem leadsTo_codeFunction {id : BlockId} :
    (codeFunction name params (.label ⟨0⟩ "entry" :: code)).LeadsTo id ↔ id ∈ Code.leads true code := by
  rw [Function.LeadsTo, codeFunction_blocks, List.exists_mem_cons_iff, Code.mem_leads]
  exact or_congr_left (iff_and_self.mpr fun _ => rfl)

theorem entryBlock_ne_merge : (entryBlock code).hint ≠ some mergeHint := by
  simp [entryBlock, mergeHint]

theorem count_hints_codeFunction :
    ((codeFunction name params (.label ⟨0⟩ "entry" :: code)).blocks.map Block.hint).count
      (some mergeHint) = merges code := by
  have placed : (Code.blocks code).map Block.hint = (Code.hints code).map some := by
    induction code with
    | nil => rfl
    | cons piece code ih =>
      cases piece with
      | slot | instr | exit => exact ih
      | label => exact congrArg (_ :: ·) ih
  rw [codeFunction_blocks, List.map_cons, List.count_cons_of_ne entryBlock_ne_merge, placed, merges]
  exact List.count_map_of_injective _ _ (fun _ _ => Option.some.inj) _

/-- Marked code makes a function whose merges are marked. -/
theorem Marked.mergesMarked (marked : Marked (· ∈ Code.leads true code) code) :
    (codeFunction name params (.label ⟨0⟩ "entry" :: code)).MergesMarked (merges code) where
  unreachable := by
    rw [codeFunction_blocks]
    refine List.forall_mem_cons.mpr ⟨?_, fun block member => ?_⟩
    · exact iff_of_false marked.ending_ne fun both => entryBlock_ne_merge both.1
    · rw [leadsTo_codeFunction]
      exact (marked.blocks block member).1
  chains := count_hints_codeFunction
  others := by
    rw [Function.entry?, codeFunction_blocks]
    refine List.forall_mem_cons.mpr ⟨fun _ => .inr (.inl rfl), fun block member never => ?_⟩
    rw [leadsTo_codeFunction] at never
    rcases (marked.blocks block member).2 never with merge | loose
    · exact .inl merge
    · exact .inr (.inr loose)

theorem leads_closed : Code.leads falls (closed falls) = [] := by
  cases falls <;> rfl

theorem marked_closed {reached : BlockId → Prop} : Marked reached (closed falls) := by
  cases falls with
  | true => exact .exit nofun .nil
  | false => exact .nil

/-- The body of a function stands behind code of the entry block and is not part of a loop, so all that
leads to its blocks is in the body. -/
theorem StmtsCode.mergesMarked (inside : ∀ piece ∈ front, Code.Inner piece)
    (body : StmtsCode slots none n 1 true stmts code falls n' k) :
    (codeFunction name params (.label ⟨0⟩ "entry" :: (front ++ (code ++ closed falls)))).MergesMarked
      (Scoped.Stmt.chainsAll stmts) := by
  have leads : Code.leads true (front ++ (code ++ closed falls)) = Code.leads true code := by
    rw [Code.leads_append (Code.closes_inner inside), Code.leads_inner inside,
      Code.leads_append body.closes, leads_closed, List.append_nil, List.nil_append]
  have marked : Marked (· ∈ Code.leads true code) code :=
    body.marked (List.forall_mem_nil _) fun _ _ _ => Iff.rfl
  have count : merges (front ++ (code ++ closed falls)) = Scoped.Stmt.chainsAll stmts := by
    rw [merges_append, merges_append, merges_of_hints (Code.hints_inner inside), body.merges_eq, merges_closed, Nat.add_zero,
      Nat.zero_add]
  rw [← count]
  apply Marked.mergesMarked
  rw [leads]
  exact (Marked.of_inner inside).append (marked.append marked_closed)

theorem LowersTo.mergesMarked {function : Scoped.Function} {lowered : Ir.Function}
    (lowers : LowersTo function lowered) :
    lowered.MergesMarked (Scoped.Stmt.chainsAll function.body) := by
  obtain ⟨_, ⟨_, body⟩, _, rfl⟩ := lowers
  exact body.mergesMarked inner_paramsCode

theorem MainLowersTo.mergesMarked {program : Scoped.Program} {lowered : Ir.Function}
    (lowers : MainLowersTo program lowered) :
    lowered.MergesMarked (Scoped.Stmt.chainsAll program.main) := by
  obtain ⟨_, ⟨_, globals, body⟩, _, rfl⟩ := lowers
  exact body.mergesMarked globals.inner

theorem functions_mergesMarked {symbols : Symbols} {functions : List Function}
    {settled : List Scoped.Function} {lowered : List Ir.Function}
    (resolved : List.Forall₂ (fun function result => resolveFunction symbols function = .ok result)
      functions settled) (lowers : List.Forall₂ LowersTo settled lowered) :
    List.Forall₂ (fun source function => function.MergesMarked (Stmt.chainsAll source.body)) functions
      lowered := by
  induction resolved generalizing lowered with
  | nil =>
    cases lowers
    exact .nil
  | cons first _ ih =>
    cases lowers with
    | cons lowersTo others =>
      obtain ⟨_, body, _⟩ := resolveFunction_body first
      exact .cons (resolveStmts_chains body ▸ lowersTo.mergesMarked) (ih others)

end Lower

variable {program : Program} {module : Ir.Module}

/-- In every function of the module of an accepted program, each chain of `if` and `else if` of its source
has one block behind it, exactly those of these that no block leads to are marked as unreachable, and all
other blocks without a predecessor are the entry, dead code or the update of a loop. -/
theorem lower_merges (lowered : lower program = .ok module) :
    ∃ main definitions, program.main = some main ∧ module.functions = Lower.printer :: definitions ∧
      definitions.map Ir.Function.name = entryName :: program.functions.map (·.name.name) ∧
      List.Forall₂ (fun source function => function.MergesMarked (Stmt.chainsAll source.body))
        (main :: program.functions) definitions := by
  obtain ⟨main, settled, settles, _, _, shape⟩ := Lower.lower_eq_ok lowered
  obtain ⟨entry, others, functions, lowersMain, lowers⟩ := shape.functions
  obtain ⟨_, body⟩ := settles.body
  have names := (lower_symbols lowered).1
  rw [functions, List.map_cons] at names
  refine ⟨main, entry :: others, settles.main, functions, (List.cons.inj names).2, ?_⟩
  exact .cons (resolveStmts_chains body ▸ lowersMain.mergesMarked)
    (Lower.functions_mergesMarked settles.functions lowers)

section

private def level : Expr := .var ⟨"n", default⟩

private def literal (value : Int32) : Expr := .int value default

/-- A program with a chain that control never falls out of, with dead code behind it, and a loop that
always ends before its update. -/
def leaving : Program where
  functions := [{
    name := ⟨"grade", default⟩
    params := [⟨"n", default⟩]
    body := [
      .if (.binary (.compare .lt) level (literal 1)) [.return (literal 0)]
        (.elseIf (.binary (.compare .lt) level (literal 2)) [.return (literal 1)]
          (.else [.return (literal 2)])),
      .return (literal 3)]
    span := default }]
  globals := []
  main := some {
    name := ⟨entryName, default⟩
    params := []
    body := [
      .for ⟨⟨"n", default⟩, literal 0⟩ (.binary (.compare .lt) level (literal 3))
        ⟨⟨"n", default⟩, literal 3⟩ [.if level [.break default] .none, .break default],
      .return (.call ⟨"grade", default⟩ [literal 1] default)]
    span := default }

theorem lower_merges_leaving : ∃ module, lower leaving = .ok module ∧
    ∃ main definitions, leaving.main = some main ∧ module.functions = Lower.printer :: definitions ∧
      definitions.map Ir.Function.name = [entryName, "grade"] ∧
      List.Forall₂ (fun source function => function.MergesMarked (Stmt.chainsAll source.body))
        (main :: leaving.functions) definitions := by
  have accepted : (lower leaving).isOk = true := by decide +kernel
  obtain ⟨module, lowered⟩ := eq_ok_of_isOk accepted
  exact ⟨module, lowered, lower_merges lowered⟩

example : (lower leaving).toOption.map (fun module => module.functions.map fun function =>
    (function.blocks.filter (·.terminator = some .unreachable)).map Block.name) =
      some [[], [], ["if.end1"]] := by
  decide +kernel

end

end OliCompiler
