import OliCompiler.Proofs.Lowering.Leading

/-!
Which blocks lowering marks as unreachable. A block behind an `if` is ended at once where nothing leads to
it, and every other block is led to, but for the code behind a jump and the update of a loop.
-/

namespace OliCompiler.Lower

open Ir Code

/-- The hint of the block behind an `if`. -/
def mergeHint : String := "if.end"

/-- The hints of the blocks that nothing may lead to, although they are no ends of an `if`. -/
def looseHints : List String := ["dead", "for.iter"]

/-- Whether the blocks of some code are marked as unreachable where they are ends of an `if` that are not
reached, and whether all others but the loose ones are reached. -/
inductive Marked (reached : BlockId → Prop) : Code → Prop where
  | nil : Marked reached []
  | inner {piece : Piece} {code : Code} (inside : Inner piece) (rest : Marked reached code) :
    Marked reached (piece :: code)
  | exit {terminator : Terminator} {code : Code} (plain : terminator ≠ .unreachable)
    (rest : Marked reached code) : Marked reached (.exit terminator :: code)
  | label {id : BlockId} {hint : String} {code : Code} (led : reached id ∨ hint ∈ looseHints)
    (rest : Marked reached code) : Marked reached (.label id hint :: code)
  | unreached {id : BlockId} {code : Code} (never : ¬reached id) (rest : Marked reached code) :
    Marked reached (.label id mergeHint :: .exit .unreachable :: code)

namespace Marked

variable {reached : BlockId → Prop} {code code' : Code}

theorem append (first : Marked reached code) (second : Marked reached code') :
    Marked reached (code ++ code') := by
  induction first with
  | nil => exact second
  | inner inside _ ih => exact .inner inside ih
  | exit plain _ ih => exact .exit plain ih
  | label led _ ih => exact .label led ih
  | unreached never _ ih => exact .unreached never ih

theorem of_inner (inside : ∀ piece ∈ code, Inner piece) : Marked reached code := by
  induction inside using inner_induction with
  | nil => exact .nil
  | slot _ ih | instr _ ih => exact .inner trivial ih

theorem ofInstrs {instrs : List Instr} : Marked reached (Code.ofInstrs instrs) := of_inner inner_ofInstrs

theorem jump {target : BlockId} (rest : Marked reached code) : Marked reached (.exit (.jump target) :: code) :=
  .exit nofun rest

theorem ending_ne (marked : Marked reached code) : ending code ≠ some .unreachable := by
  induction marked with
  | nil => exact nofun
  | @inner piece code inside _ ih =>
    cases piece with
    | slot | instr => exact ih
    | exit | label => cases inside
  | exit plain => exact fun same => plain (Option.some.inj same)
  | label => exact nofun
  | unreached => exact nofun

/-- A block is marked as unreachable exactly if it is the end of an `if` and not reached. -/
theorem blocks (marked : Marked reached code) : ∀ block ∈ Code.blocks code,
    (block.terminator = some .unreachable ↔ block.hint = some mergeHint ∧ ¬reached block.id) ∧
      (¬reached block.id → block.hint = some mergeHint ∨ ∃ hint ∈ looseHints, block.hint = some hint) := by
  induction marked with
  | nil => exact List.forall_mem_nil _
  | @inner piece code inside _ ih =>
    cases piece with
    | slot | instr => exact ih
    | exit | label => cases inside
  | exit _ _ ih => exact ih
  | @label id hint code led rest ih =>
    refine List.forall_mem_cons.mpr ⟨⟨iff_of_false rest.ending_ne ?_, fun never => ?_⟩, ih⟩
    · rintro ⟨same, never⟩
      cases same
      exact absurd (led.resolve_left never) (by decide)
    · exact .inr ⟨hint, led.resolve_left never, rfl⟩
  | unreached never _ ih =>
    exact List.forall_mem_cons.mpr ⟨⟨iff_of_true rfl ⟨rfl, never⟩, fun _ => .inl rfl⟩, ih⟩

end Marked

/-! ## What is reached -/

/-- Whether the blocks numbered from `k` up to `k'` are reached exactly if they are listed. -/
def Tells (reached : BlockId → Prop) (k k' : Nat) (ids : List BlockId) : Prop :=
  ∀ index, k ≤ index → index < k' → (reached ⟨index⟩ ↔ ⟨index⟩ ∈ ids)

/-- Whether no block numbered from `k` up to `k'` is listed. -/
def Avoids (k k' : Nat) (ids : List BlockId) : Prop := ∀ index, k ≤ index → index < k' → ⟨index⟩ ∉ ids

variable {k k' m m' : Nat} {others ids ids' before behind : List BlockId} {reached : BlockId → Prop}

namespace Avoids

theorem nil : Avoids k k' [] := fun _ _ _ => List.not_mem_nil

theorem cons {index : Nat} (below : index < k) (rest : Avoids k k' ids) : Avoids k k' (⟨index⟩ :: ids) := by
  intro other low high member
  rcases List.mem_cons.mp member with same | member
  · cases same
    exact Nat.not_lt.mpr low below
  · exact rest other low high member

theorem append (first : Avoids k k' ids) (second : Avoids k k' ids') : Avoids k k' (ids ++ ids') := by
  intro index low high member
  rcases List.mem_append.mp member with member | member
  · exact first index low high member
  · exact second index low high member

theorem either {here : Prop} [Decidable here] (avoids : Avoids k k' ids) :
    Avoids k k' (if here then ids else []) := by
  split
  · exact avoids
  · exact .nil

end Avoids

/-- Code with other numbers does not lead here. -/
theorem Within.avoids (within : Within k k' others ids) (apart : m' ≤ k ∨ k' ≤ m)
    (below : ∀ id ∈ others, id.index < m) : Avoids m m' ids := by
  intro index low high member
  rcases within _ member with ⟨inside, behind⟩ | listed
  · rcases apart with apart | apart
    · exact Nat.not_lt.mpr (Nat.le_trans apart inside) high
    · exact Nat.not_lt.mpr (Nat.le_trans apart low) behind
  · exact Nat.not_lt.mpr low (below _ listed)

/-- The first code tells of its own blocks if what follows does not lead to them. -/
theorem Tells.first (tells : Tells reached k k' (ids ++ behind)) (high : m' ≤ k') (others : Avoids k m' behind) :
    Tells reached k m' ids := by
  intro index low below
  rw [tells index low (Nat.lt_of_lt_of_le below high), List.mem_append, or_iff_left (others index low below)]

/-- The last code tells of its own blocks if what comes before does not lead to them. -/
theorem Tells.last (tells : Tells reached k k' (before ++ ids)) (low : k ≤ m) (others : Avoids m k' before) :
    Tells reached m k' ids := by
  intro index above high
  rw [tells index (Nat.le_trans low above) high, List.mem_append, or_iff_right (others index above high)]

/-- A block that is listed is reached. -/
theorem Tells.of_mem {index : Nat} (tells : Tells reached k k' ids) (low : k ≤ index) (high : index < k')
    (listed : ⟨index⟩ ∈ ids) : reached ⟨index⟩ :=
  (tells index low high).mpr listed

/-! ## The constructs -/

variable {slots : List Reg} {n n' slot : Nat} {var : Scoped.Var} {value : Scoped.Expr} {code : Code}
  {falls : Bool} {target : BlockId}

theorem marked_joined : Marked reached (joined falls target) := by
  cases falls with
  | false => exact .nil
  | true => exact .exit nofun .nil

theorem DeclareCode.marked (declared : DeclareCode slots n slot value code n') : Marked reached code :=
  .of_inner declared.inner

theorem AssignCode.marked (assigned : AssignCode slots n var value code n') : Marked reached code :=
  .of_inner assigned.inner

/-- Whether the loop around some code has lower numbers than its own. -/
def Around (k : Nat) (targets : Option Targets) : Prop := ∀ id ∈ Targets.ids targets, id.index < k

theorem around_loop {exit next : Nat} (first : exit < k) (second : next < k) :
    Around k (some ⟨⟨exit⟩, ⟨next⟩⟩) :=
  List.forall_mem_cons.mpr ⟨first, List.forall_mem_singleton.mpr second⟩

theorem Around.mono {targets : Option Targets} (around : Around k targets) (le : k ≤ k') : Around k' targets :=
  fun id member => Nat.lt_of_lt_of_le (around id member) le

theorem Around.merge {targets : Option Targets} {merge : BlockId} (around : Around k targets)
    (below : merge.index < k) : ∀ id ∈ merge :: Targets.ids targets, id.index < k :=
  List.forall_mem_cons.mpr ⟨below, around⟩

mutual

theorem StmtCode.marked : ∀ {targets : Option Targets} {n n' k k' : Nat} {stmt : Scoped.Stmt}
    {code : Code} {falls : Bool}, StmtCode slots targets n k stmt code falls n' k' → Around k targets →
      Tells reached k k' (leads true code) → Marked reached code
  | _, _, _, _, _, _, _, _, .declare declared => fun _ _ => declared.marked
  | _, _, _, _, _, _, _, _, .assign assigned => fun _ _ => assigned.marked
  | _, _, _, _, _, _, _, _, .return word => fun _ _ => .append .ofInstrs (.exit nofun .nil)
  | _, _, _, _, _, _, _, _, .expr computed => fun _ _ => .ofInstrs
  | _, _, _, k, _, _, _, left, .if both => by
    intro around tells
    rw [leads_if both.closes] at tells
    have below := both.labels.le
    have apart : (⟨k⟩ : BlockId) ∉ Targets.ids _ := fun listed => Nat.lt_irrefl k (around _ listed)
    have merge := (tells k (Nat.le_refl k) below).trans (both.merge_mem (Nat.lt_succ_self k) apart)
    apply Marked.append
    · apply both.marked (Nat.lt_succ_self k) (around.mono (Nat.le_succ k))
      exact fun index low high => tells index (Nat.le_of_succ_le low) high
    · cases left with
      | true => exact .label (.inl (merge.mpr rfl)) .nil
      | false => exact .unreached (fun led => Bool.noConfusion (merge.mp led)) .nil
  | _, _, _, k, k', _, _, _, .while _ repeated => by
    intro around tells
    rw [leads_while repeated.closes] at tells
    have below := repeated.labels.le
    have head := tells.of_mem (Nat.le_refl k) (by omega) List.mem_cons_self
    have body := tells.of_mem (Nat.le_succ k) (by omega) (by simp)
    have behind := tells.of_mem (Nat.le_add_right k 2) (by omega) (by simp)
    refine .exit nofun (.label (.inl head) (.append .ofInstrs (.exit nofun (.label (.inl body)
      (.append ?_ (.append marked_joined (.label (.inl behind) .nil)))))))
    apply repeated.marked (around_loop (by omega) (by omega))
    refine (tells.last (Nat.le_add_right k 3) ?_).first (Nat.le_refl _) (.either (.cons (by omega) .nil))
    exact .cons (by omega) (.cons (by omega) (.cons (by omega) .nil))
  | _, _, _, k, k', _, _, _, .for declared _ repeated updated => by
    intro around tells
    rw [leads_for declared.closes declared.leads repeated.closes updated.closes updated.leads] at tells
    have below := repeated.labels.le
    have head := tells.of_mem (Nat.le_refl k) (by omega) List.mem_cons_self
    have body := tells.of_mem (Nat.le_succ k) (by omega) (by simp)
    have behind := tells.of_mem (Nat.le_add_right k 3) (by omega) (by simp)
    refine .append declared.marked (.exit nofun (.label (.inl head) (.append .ofInstrs (.exit nofun
      (.label (.inl body) (.append ?_ (.append marked_joined (.label (.inr (by decide))
        (.append updated.marked (.jump (.label (.inl behind) .nil)))))))))))
    apply repeated.marked (around_loop (by omega) (by omega))
    refine (tells.last (Nat.le_add_right k 4) ?_).first (Nat.le_refl _) ?_
    · exact .cons (by omega) (.cons (by omega) (.cons (by omega) .nil))
    · exact .append (.either (.cons (by omega) .nil)) (.cons (by omega) .nil)
  | _, _, _, _, _, _, _, _, .break => fun _ _ => .exit nofun .nil
  | _, _, _, _, _, _, _, _, .continue => fun _ _ => .exit nofun .nil

theorem ArmsCode.marked : ∀ {targets : Option Targets} {merge : BlockId} {n n' k k' : Nat}
    {condition : Scoped.Expr} {body : List Scoped.Stmt} {tail : Scoped.Tail} {code : Code} {left : Bool},
    ArmsCode slots targets merge n k condition body tail code left n' k' → merge.index < k →
      Around k targets → Tells reached k k' (leads true code) → Marked reached code
  | _, ⟨merge⟩, _, _, k, k', _, _, _, _, _, .mk _ first second => by
    intro below around tells
    rw [leads_arms first.closes] at tells
    have low := first.labels.le
    have high := second.labels.le
    have yes := tells.of_mem (Nat.le_refl k) (by omega) List.mem_cons_self
    have no := tells.of_mem (Nat.le_succ k) (by omega) (List.mem_cons_of_mem _ List.mem_cons_self)
    have rest := tells.last (Nat.le_add_right k 2) (.cons (by omega) (.cons (by omega) .nil))
    have above : merge < k + 2 := Nat.lt_of_lt_of_le below (Nat.le_add_right k 2)
    have inner := around.mono (Nat.le_add_right k 2)
    refine .append .ofInstrs (.exit nofun (.label (.inl yes) (.append ?_ (.append marked_joined
      (.label (.inl no) ?_)))))
    · apply first.marked inner
      refine rest.first high (.append (.either (.cons above .nil)) ?_)
      exact second.leads_within.avoids (.inl (Nat.le_refl _)) (inner.merge above)
    · apply second.marked (Nat.lt_of_lt_of_le above low) (inner.mono low)
      have passed := rest.last low (first.leads_within.avoids (.inr (Nat.le_refl _)) (inner.mono low))
      exact passed.last (Nat.le_refl _) (.either (.cons (Nat.lt_of_lt_of_le above low) .nil))

theorem TailCode.marked : ∀ {targets : Option Targets} {merge : BlockId} {n n' k k' : Nat}
    {tail : Scoped.Tail} {code : Code} {left : Bool},
    TailCode slots targets merge n k tail code left n' k' → merge.index < k →
      Around k targets → Tells reached k k' (leads true code) → Marked reached code
  | _, _, _, _, _, _, _, _, _, .none => fun _ _ _ => .exit nofun .nil
  | _, _, _, _, _, _, _, _, _, .elseIf both => both.marked
  | _, ⟨merge⟩, _, _, _, _, _, _, _, .else inner => by
    intro below around tells
    rw [leads_append inner.closes, leads_joined] at tells
    have body := inner.marked around (tells.first (Nat.le_refl _) (.either (.cons below .nil)))
    exact .append body marked_joined

theorem StmtsCode.marked : ∀ {targets : Option Targets} {n n' k k' : Nat} {falls falls' : Bool}
    {stmts : List Scoped.Stmt} {code : Code}, StmtsCode slots targets n k falls stmts code falls' n' k' →
      Around k targets → Tells reached k k' (leads falls code) → Marked reached code
  | _, _, _, _, _, _, _, _, _, .nil => fun _ _ => .nil
  | _, _, _, k, _, _, _, _, _, .cons first rest => by
    intro around tells
    rw [leads_append first.closes] at tells
    have passed := around.mono first.labels.le
    apply Marked.append
    · apply first.marked around
      exact tells.first rest.labels.le (rest.leads_within.avoids (.inl (Nat.le_refl _)) around)
    · apply rest.marked passed
      exact tells.last first.labels.le (first.leads_within.avoids (.inr (Nat.le_refl _)) passed)
  | _, _, _, k, _, _, _, _, _, .dead first rest => by
    intro around tells
    rw [Code.leads, leads_append first.closes] at tells
    have inner := around.mono (Nat.le_succ k)
    have passed := inner.mono first.labels.le
    have tells := @Tells.last _ _ _ _ [] _ tells (Nat.le_succ k) .nil
    refine .label (.inr List.mem_cons_self) (.append ?_ ?_)
    · apply first.marked inner
      exact tells.first rest.labels.le (rest.leads_within.avoids (.inl (Nat.le_refl _)) inner)
    · apply rest.marked passed
      exact tells.last first.labels.le (first.leads_within.avoids (.inr (Nat.le_refl _)) passed)

end

end OliCompiler.Lower
