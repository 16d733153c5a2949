import OliCompiler.Proofs.Lowering.Account
import OliCompiler.Proofs.Lowering.Closing

/-!
Where lowered code leads. The code of a construct leads to blocks of its own and to those of the loop
around it, and the arms of an `if` lead to the block behind them exactly if control falls out of one.
-/

namespace OliCompiler

namespace Ir.Code

/-- The blocks that the ends of blocks lead to, if a block is open before the code or not. An end that
stands behind another one leads nowhere. -/
def leads : (isOpen : Bool) → Code → List BlockId
  | _, [] => []
  | isOpen, .slot _ :: code | isOpen, .instr _ :: code => leads isOpen code
  | isOpen, .exit terminator :: code =>
    (if isOpen then terminator.successors else []) ++ leads false code
  | _, .label _ _ :: code => leads true code

variable {isOpen isOpen' : Bool} {code code' inner : Code} {instrs : List Instr} {id : BlockId}

theorem leads_append (closed : closes isOpen code = some isOpen') :
    leads isOpen (code ++ code') = leads isOpen code ++ leads isOpen' code' := by
  induction code generalizing isOpen with
  | nil =>
    cases closed
    rfl
  | cons piece code ih =>
    cases piece with
    | slot | instr => exact ih closed
    | exit terminator => rw [List.cons_append, leads, leads, ih closed, List.append_assoc]
    | label =>
      cases isOpen with
      | false => exact ih closed
      | true => cases closed

theorem leads_inner (inside : ∀ piece ∈ inner, Inner piece) : leads isOpen inner = [] := by
  induction inside using inner_induction with
  | nil => rfl
  | slot _ ih | instr _ ih => exact ih

@[simp]
theorem leads_ofInstrs : leads isOpen (ofInstrs instrs) = [] := leads_inner inner_ofInstrs

@[simp]
theorem leads_ofInstrs_append : leads isOpen (ofInstrs instrs ++ code) = leads isOpen code := by
  rw [leads_append closes_ofInstrs, leads_ofInstrs, List.nil_append]

/-- Code leads where the blocks in it do, and the one that is open before it. -/
theorem mem_leads : id ∈ leads isOpen code ↔
    (isOpen = true ∧ ∃ terminator ∈ ending code, id ∈ terminator.successors) ∨
      ∃ block ∈ blocks code, ∃ terminator ∈ block.terminator, id ∈ terminator.successors := by
  induction code generalizing isOpen with
  | nil => simp [leads, ending, blocks]
  | cons piece code ih =>
    cases piece with
    | slot | instr => exact ih
    | exit terminator =>
      cases isOpen <;> simp [leads, ending, blocks, ih]
    | label =>
      simp [leads, ending, blocks, ih]

end Ir.Code

namespace Lower

open Ir Code

/-- The blocks that `break` and `continue` lead to. -/
def Targets.ids : Option Targets → List BlockId
  | none => []
  | some targets => [targets.exit, targets.next]

/-- Whether blocks are numbered from `k` up to `k'` or are among some others. -/
def Within (k k' : Nat) (others ids : List BlockId) : Prop :=
  ∀ id ∈ ids, (k ≤ id.index ∧ id.index < k') ∨ id ∈ others

namespace Within

variable {k k' m m' : Nat} {others others' ids ids' : List BlockId} {id : BlockId}

theorem nil : Within k k' others [] := List.forall_mem_nil _

theorem append (first : Within k k' others ids) (second : Within k k' others ids') :
    Within k k' others (ids ++ ids') :=
  List.forall_mem_append.mpr ⟨first, second⟩

theorem cons {index : Nat} (low : k ≤ index) (high : index < k') (rest : Within k k' others ids) :
    Within k k' others (⟨index⟩ :: ids) :=
  List.forall_mem_cons.mpr ⟨.inl ⟨low, high⟩, rest⟩

theorem other (listed : id ∈ others) : Within k k' others [id] :=
  List.forall_mem_singleton.mpr (.inr listed)

/-- A wider range, and others that are in the range. -/
theorem widen (within : Within m m' others' ids) (from_ : k ≤ m) (upTo : m' ≤ k')
    (known : Within k k' others others') : Within k k' others ids := by
  intro id member
  rcases within id member with ⟨low, high⟩ | listed
  · exact .inl ⟨Nat.le_trans from_ low, Nat.lt_of_lt_of_le high upTo⟩
  · exact known id listed

theorem self : Within k k' others others := fun _ listed => .inr listed

theorem not_mem (within : Within k k' others ids) (low : id.index < k) (absent : id ∉ others) : id ∉ ids := by
  intro member
  rcases within id member with ⟨inside, _⟩ | listed
  · exact Nat.not_lt.mpr inside low
  · exact absent listed

theorem either {here : Prop} [Decidable here] (within : Within k k' others ids) :
    Within k k' others (if here then ids else []) := by
  split
  · exact within
  · exact .nil

end Within

variable {slots : List Reg} {target : BlockId} {n n' slot : Nat} {var : Scoped.Var}
  {value : Scoped.Expr} {code : Code} {falls : Bool}

theorem leads_joined : leads falls (joined falls target) = if falls then [target] else [] := by
  cases falls <;> rfl

theorem DeclareCode.leads (declared : DeclareCode slots n slot value code n') :
    Code.leads true code = [] :=
  leads_inner declared.inner

theorem AssignCode.leads (assigned : AssignCode slots n var value code n') :
    Code.leads true code = [] :=
  leads_inner assigned.inner

/-! ## The constructs -/

theorem leads_if {code : Code} {merge : BlockId} {reached : Bool} (closed : closes true code = some false) :
    leads true (code ++ .label merge "if.end" :: if reached then [] else [.exit .unreachable]) =
      leads true code := by
  rw [leads_append closed]
  cases reached <;> simp [Code.leads, Terminator.successors]

theorem leads_while {k : Nat} {instrs : List Instr} {operand : Operand} {inner : Code}
    (closed : closes true inner = some falls) :
    leads true (.exit (.jump ⟨k⟩) :: .label ⟨k⟩ "while.cond" :: (Code.ofInstrs instrs ++
        .exit (.branch operand ⟨k + 1⟩ ⟨k + 2⟩) :: .label ⟨k + 1⟩ "while.body" :: (inner ++
          (joined falls ⟨k⟩ ++ [.label ⟨k + 2⟩ "while.end"])))) =
      [⟨k⟩, ⟨k + 1⟩, ⟨k + 2⟩] ++ (leads true inner ++ if falls then [⟨k⟩] else []) := by
  simp [Code.leads, leads_append closed, leads_append closes_joined, leads_joined, Terminator.successors]

theorem leads_for {k : Nat} {instrs : List Instr} {operand : Operand} {first inner next : Code}
    (opened : closes true first = some true) (still : leads true first = [])
    (closed : closes true inner = some falls) (stepped : closes true next = some true)
    (quiet : leads true next = []) :
    leads true (first ++ .exit (.jump ⟨k⟩) :: .label ⟨k⟩ "for.cond" :: (Code.ofInstrs instrs ++
        .exit (.branch operand ⟨k + 1⟩ ⟨k + 3⟩) :: .label ⟨k + 1⟩ "for.body" :: (inner ++
          (joined falls ⟨k + 2⟩ ++ .label ⟨k + 2⟩ "for.iter" :: (next ++
            [.exit (.jump ⟨k⟩), .label ⟨k + 3⟩ "for.end"]))))) =
      [⟨k⟩, ⟨k + 1⟩, ⟨k + 3⟩] ++ (leads true inner ++ ((if falls then [⟨k + 2⟩] else []) ++ [⟨k⟩])) := by
  simp [Code.leads, leads_append opened, still, leads_append closed, leads_append closes_joined, leads_joined,
    leads_append stepped, quiet, Terminator.successors]

theorem leads_arms {k : Nat} {instrs : List Instr} {operand : Operand} {merge : BlockId} {inner others : Code}
    (closed : closes true inner = some falls) :
    leads true (Code.ofInstrs instrs ++ .exit (.branch operand ⟨k⟩ ⟨k + 1⟩) :: .label ⟨k⟩ "if.then" ::
        (inner ++ (joined falls merge ++ .label ⟨k + 1⟩ "if.else" :: others))) =
      [⟨k⟩, ⟨k + 1⟩] ++ (leads true inner ++ ((if falls then [merge] else []) ++ leads true others)) := by
  simp [Code.leads, leads_append closed, leads_append closes_joined, leads_joined, Terminator.successors]

/-! ## Where the constructs lead -/

mutual

theorem StmtCode.leads_within : ∀ {targets : Option Targets} {n n' k k' : Nat} {stmt : Scoped.Stmt}
    {code : Code} {falls : Bool}, StmtCode slots targets n k stmt code falls n' k' →
      Within k k' (Targets.ids targets) (Code.leads true code)
  | _, _, _, _, _, _, _, _, .declare declared => declared.leads ▸ .nil
  | _, _, _, _, _, _, _, _, .assign assigned => assigned.leads ▸ .nil
  | _, _, _, _, _, _, _, _, .return word => by
    simp [Code.leads, Terminator.successors, Within.nil]
  | _, _, _, _, _, _, _, _, .expr computed => leads_ofInstrs ▸ .nil
  | _, _, _, k, _, _, _, reached, .if both => by
    rw [leads_if both.closes]
    have below := both.labels.le
    apply both.leads_within.widen (Nat.le_succ k) (Nat.le_refl _)
    exact .cons (Nat.le_refl k) below .self
  | _, _, _, k, _, _, _, _, .while _ repeated => by
    rw [leads_while repeated.closes]
    have below := repeated.labels.le
    apply Within.append
    · exact .cons (Nat.le_refl k) (by omega) (.cons (by omega) (by omega) (.cons (by omega) (by omega) .nil))
    · apply Within.append
      · apply repeated.leads_within.widen (by omega) (Nat.le_refl _)
        exact .cons (by omega) (by omega) (.cons (Nat.le_refl k) (by omega) .nil)
      · exact .either (.cons (Nat.le_refl k) (by omega) .nil)
  | _, _, _, k, _, _, _, _, .for declared _ repeated updated => by
    rw [leads_for declared.closes declared.leads repeated.closes updated.closes updated.leads]
    have below := repeated.labels.le
    apply Within.append
    · exact .cons (Nat.le_refl k) (by omega) (.cons (by omega) (by omega) (.cons (by omega) (by omega) .nil))
    · apply Within.append
      · apply repeated.leads_within.widen (by omega) (Nat.le_refl _)
        exact .cons (by omega) (by omega) (.cons (by omega) (by omega) .nil)
      · exact .append (.either (.cons (by omega) (by omega) .nil)) (.cons (Nat.le_refl k) (by omega) .nil)
  | _, _, _, _, _, _, _, _, .break => .other List.mem_cons_self
  | _, _, _, _, _, _, _, _, .continue => .other (List.mem_cons_of_mem _ List.mem_cons_self)

theorem ArmsCode.leads_within : ∀ {targets : Option Targets} {merge : BlockId} {n n' k k' : Nat}
    {condition : Scoped.Expr} {body : List Scoped.Stmt} {tail : Scoped.Tail} {code : Code}
    {reached : Bool},
    ArmsCode slots targets merge n k condition body tail code reached n' k' →
      Within k k' (merge :: Targets.ids targets) (Code.leads true code)
  | _, _, _, _, k, _, _, _, _, _, _, .mk _ first second => by
    rw [leads_arms first.closes]
    have low := first.labels.le
    have high := second.labels.le
    apply Within.append
    · exact .cons (Nat.le_refl k) (by omega) (.cons (by omega) (by omega) .nil)
    · apply Within.append
      · exact first.leads_within.widen (by omega) high fun _ listed => .inr (List.mem_cons_of_mem _ listed)
      · apply Within.append
        · exact .either (.other List.mem_cons_self)
        · exact second.leads_within.widen (by omega) (Nat.le_refl _) .self

theorem TailCode.leads_within : ∀ {targets : Option Targets} {merge : BlockId} {n n' k k' : Nat}
    {tail : Scoped.Tail} {code : Code} {reached : Bool},
    TailCode slots targets merge n k tail code reached n' k' →
      Within k k' (merge :: Targets.ids targets) (Code.leads true code)
  | _, _, _, _, _, _, _, _, _, .none => .other List.mem_cons_self
  | _, _, _, _, _, _, _, _, _, .elseIf both => both.leads_within
  | _, _, _, _, _, _, _, _, _, .else inner => by
    rw [leads_append inner.closes, leads_joined]
    apply Within.append
    · exact inner.leads_within.widen (Nat.le_refl _) (Nat.le_refl _) fun _ listed =>
        .inr (List.mem_cons_of_mem _ listed)
    · exact .either (.other List.mem_cons_self)

theorem StmtsCode.leads_within : ∀ {targets : Option Targets} {n n' k k' : Nat} {falls falls' : Bool}
    {stmts : List Scoped.Stmt} {code : Code},
    StmtsCode slots targets n k falls stmts code falls' n' k' →
      Within k k' (Targets.ids targets) (Code.leads falls code)
  | _, _, _, _, _, _, _, _, _, .nil => .nil
  | _, _, _, _, _, _, _, _, _, .cons first rest => by
    rw [leads_append first.closes]
    exact (first.leads_within.widen (Nat.le_refl _) rest.labels.le .self).append
      (rest.leads_within.widen first.labels.le (Nat.le_refl _) .self)
  | _, _, _, k, _, _, _, _, _, .dead first rest => by
    rw [Code.leads, leads_append first.closes]
    exact (first.leads_within.widen (Nat.le_succ k) rest.labels.le .self).append
      (rest.leads_within.widen (Nat.le_of_succ_le first.labels.le) (Nat.le_refl _) .self)

end

/-! ## Where the arms of an `if` lead -/

mutual

/-- The arms lead to the block behind them exactly if control falls out of one of them. -/
theorem ArmsCode.merge_mem : ∀ {targets : Option Targets} {merge : BlockId} {n n' k k' : Nat}
    {condition : Scoped.Expr} {body : List Scoped.Stmt} {tail : Scoped.Tail} {code : Code}
    {reached : Bool}, ArmsCode slots targets merge n k condition body tail code reached n' k' →
      merge.index < k → merge ∉ Targets.ids targets → (merge ∈ Code.leads true code ↔ reached = true)
  | _, merge, _, _, k, _, _, _, _, _, _, .mk _ first second => by
    intro low absent
    have passed := first.labels.le
    have own : Within k (k + 2) [] [⟨k⟩, ⟨k + 1⟩] :=
      .cons (Nat.le_refl k) (by omega) (.cons (by omega) (by omega) .nil)
    have apart := own.not_mem low List.not_mem_nil
    have before := first.leads_within.not_mem (by omega) absent
    have behind := second.merge_mem (by omega) absent
    rw [leads_arms first.closes, List.mem_append, List.mem_append, List.mem_append, or_iff_right apart,
      or_iff_right before, behind, Bool.or_eq_true]
    apply or_congr_left
    split <;> simp_all

theorem TailCode.merge_mem : ∀ {targets : Option Targets} {merge : BlockId} {n n' k k' : Nat}
    {tail : Scoped.Tail} {code : Code} {reached : Bool},
    TailCode slots targets merge n k tail code reached n' k' →
      merge.index < k → merge ∉ Targets.ids targets → (merge ∈ Code.leads true code ↔ reached = true)
  | _, _, _, _, _, _, _, _, _, .none => fun _ _ => by simp [Code.leads, Terminator.successors]
  | _, _, _, _, _, _, _, _, _, .elseIf both => both.merge_mem
  | _, merge, _, _, _, _, _, _, falls, .else inner => by
    intro low absent
    have before := inner.leads_within.not_mem low absent
    rw [leads_append inner.closes, leads_joined, List.mem_append, or_iff_right before]
    cases falls <;> simp

end

end Lower

end OliCompiler
