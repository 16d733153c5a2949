import OliCompiler.Proofs.Lowering.Emission

/-!
Lowering emits the code of statements. Blocks are created before it is known where they will stand;
the numbers of created blocks lie below the next one, so no other block gets them.
-/

namespace OliCompiler.Lower

open Ir

/-- Whether control stands behind some code as a flow tells. -/
def Stands (code : Code) : Bool → Flow → Prop
  | true, .falls id => Open code id
  | false, .leaves => True
  | true, .leaves | false, .falls _ => False

theorem Open.stands {code : Code} {id : BlockId} (opened : Open code id) :
    Stands code true (.falls id) := opened

/-- Whether the numbers of blocks from `k` on are free, and those of pending blocks label nothing. -/
structure Fresh (code : Code) (k : Nat) (pending : List (BlockId × String)) : Prop where
  labels : ∀ id ∈ Code.labels code, id.index < k
  created : ∀ entry ∈ pending, entry.1.index < k ∧ entry.1 ∉ Code.labels code
  distinct : (pending.map Prod.fst).Nodup

namespace Fresh

variable {code more : Code} {k k' : Nat} {pending pending' : List (BlockId × String)}

theorem append (fresh : Fresh code k pending) (labels : Labels k (Code.labels more) k') :
    Fresh (code ++ more) k' pending := by
  have le := labels.le
  refine ⟨?_, ?_, fresh.distinct⟩
  · intro id member
    rw [Code.labels_append] at member
    rcases List.mem_append.mp member with member | member
    · exact Nat.lt_of_lt_of_le (fresh.labels id member) le
    · exact (labels.within id member).2
  · intro entry member
    obtain ⟨low, absent⟩ := fresh.created entry member
    refine ⟨Nat.lt_of_lt_of_le low le, ?_⟩
    rw [Code.labels_append, List.mem_append, not_or]
    exact ⟨absent, labels.not_mem low⟩

theorem bare (fresh : Fresh code k pending) (more : Code) (bare : Code.labels more = []) :
    Fresh (code ++ more) k pending :=
  fresh.append (bare ▸ .nil)

theorem create (fresh : Fresh code k pending) (hint : String) :
    Fresh code (k + 1) (pending ++ [(⟨k⟩, hint)]) := by
  refine ⟨fun id member => Nat.lt_succ_of_lt (fresh.labels id member), ?_, ?_⟩
  · intro entry member
    rcases List.mem_append.mp member with member | member
    · obtain ⟨low, absent⟩ := fresh.created entry member
      exact ⟨Nat.lt_succ_of_lt low, absent⟩
    · obtain rfl := List.mem_singleton.mp member
      refine ⟨Nat.lt_succ_self k, fun member => ?_⟩
      exact Nat.lt_irrefl k (fresh.labels _ member)
  · rw [List.map_append]
    refine fresh.distinct.append (List.nodup_singleton _) (List.disjoint_singleton.mpr ?_)
    intro member
    obtain ⟨entry, present, same⟩ := List.mem_map.mp member
    have low := (fresh.created entry present).1
    rw [same] at low
    exact Nat.lt_irrefl k low

theorem createNext (fresh : Fresh code k (pending ++ pending')) (hint : String) :
    Fresh code (k + 1) (pending ++ (pending' ++ [(⟨k⟩, hint)])) := by
  rw [← List.append_assoc]
  exact fresh.create hint

section

variable {id : BlockId} {hint : String}

theorem absent (fresh : Fresh code k (pending ++ (id, hint) :: pending')) :
    id ∉ (pending ++ pending').map Prod.fst := by
  have distinct := (List.perm_middle.map Prod.fst).nodup_iff.mp fresh.distinct
  exact (List.nodup_cons.mp distinct).1

/-- A created block that is started is no longer pending. -/
theorem start (fresh : Fresh code k (pending ++ (id, hint) :: pending')) :
    Fresh (code ++ [.label id hint]) k (pending ++ pending') := by
  have listed : ∀ entry ∈ pending ++ pending', entry ∈ pending ++ (id, hint) :: pending' :=
    fun entry member => List.perm_middle.mem_iff.mpr (List.mem_cons_of_mem _ member)
  have distinct := (List.perm_middle.map Prod.fst).nodup_iff.mp fresh.distinct
  refine ⟨?_, ?_, (List.nodup_cons.mp distinct).2⟩
  · intro other member
    rw [Code.labels_append] at member
    rcases List.mem_append.mp member with member | member
    · exact fresh.labels other member
    · obtain rfl := List.mem_singleton.mp member
      exact (fresh.created (other, hint) (by simp)).1
  · intro entry member
    obtain ⟨low, absent⟩ := fresh.created entry (listed entry member)
    refine ⟨low, ?_⟩
    rw [Code.labels_append, List.mem_append, not_or]
    refine ⟨absent, fun same => ?_⟩
    obtain rfl := List.mem_singleton.mp same
    exact fresh.absent (List.mem_map.mpr ⟨entry, member, rfl⟩)

theorem opens (fresh : Fresh code k (pending ++ (id, hint) :: pending')) :
    Open (code ++ [.label id hint]) id :=
  open_label hint (fresh.created (id, hint) (by simp)).2

theorem starts {site : Site} {n : Nat} (fresh : Fresh code k (pending ++ (id, hint) :: pending')) :
    Emits (Lower.start id) (site.holds code n k (pending ++ (id, hint) :: pending')) ()
      (site.holds (code ++ [.label id hint]) n k (pending ++ pending')) :=
  start_emits fresh.absent

end

end Fresh

variable {α : Type} {site : Site} {symbols : Symbols}

/-- Whether an action emits code of some shape. It tells whether control falls out of that code. -/
def Extends (site : Site) (code : Code) (n k : Nat) (pending : List (BlockId × String))
    (action : Build α) (stands : Code → Bool → α → Prop)
    (shape : List Reg → Code → Bool → Nat → Nat → Prop) : Prop :=
  ∃ more falls result n' k', Emits action (site.holds code n k pending) result
      (site.holds (code ++ more) n' k' pending) ∧
    stands (code ++ more) falls result ∧
    ∀ slots, Code.slots (code ++ more) <+: slots → shape slots more falls n' k'

def EmitsStmt (site : Site) (symbols : Symbols) (stmt : Scoped.Stmt) : Prop :=
  ∀ ⦃targets : Option Targets⦄ ⦃id : BlockId⦄ ⦃code : Code⦄ ⦃n k : Nat⦄
    ⦃pending : List (BlockId × String)⦄, Open code id → Fresh code k pending →
    stmt.InScope symbols targets.isSome (Code.slots code).length →
    Extends site code n k pending (Lower.stmt targets id stmt) Stands
      fun slots more falls n' k' => StmtCode slots targets n k stmt more falls n' k'

def EmitsTail (site : Site) (symbols : Symbols) (tail : Scoped.Tail) : Prop :=
  ∀ ⦃targets : Option Targets⦄ ⦃merge id : BlockId⦄ ⦃code : Code⦄ ⦃n k : Nat⦄
    ⦃pending : List (BlockId × String)⦄, Open code id → Fresh code k pending →
    tail.InScope symbols targets.isSome (Code.slots code).length →
    Extends site code n k pending (Lower.tail targets merge id tail)
      (fun _ falls reached => reached = falls)
      fun slots more reached n' k' => TailCode slots targets merge n k tail more reached n' k'

def EmitsStmts (site : Site) (symbols : Symbols) (stmts : List Scoped.Stmt) : Prop :=
  ∀ ⦃targets : Option Targets⦄ ⦃falls : Bool⦄ ⦃flow : Flow⦄ ⦃code : Code⦄ ⦃n k : Nat⦄
    ⦃pending : List (BlockId × String)⦄, Stands code falls flow → Fresh code k pending →
    Scoped.Stmt.AllInScope symbols targets.isSome (Code.slots code).length stmts →
    Extends site code n k pending (Lower.stmts targets flow stmts) Stands
      fun slots more falls' n' k' => StmtsCode slots targets n k falls stmts more falls' n' k'

variable {code : Code} {n k : Nat} {id : BlockId} {pending : List (BlockId × String)}

theorem join_emits {falls : Bool} {flow : Flow} (stands : Stands code falls flow)
    (target : BlockId) :
    Emits (join target flow) (site.holds code n k pending) falls
      (site.holds (code ++ joined falls target) n k pending) := by
  cases flow with
  | falls id =>
    cases falls with
    | true => exact (terminate_emits stands _).bind emits_pure
    | false => cases stands
  | leaves =>
    cases falls with
    | true => cases stands
    | false =>
      rw [joined, if_neg Bool.false_ne_true, List.append_nil]
      exact emits_pure

theorem declare_emits {value : Scoped.Expr} (opened : Open code id)
    (settled : value.InScope symbols (Code.slots code).length) :
    ∃ more n', Emits (declare id value) (site.holds code n k pending) ()
        (site.holds (code ++ more) n' k pending) ∧ Open (code ++ more) id ∧
      ∀ slots, Code.slots (code ++ more) <+: slots →
        DeclareCode slots n (Code.slots code).length value more n' := by
  obtain ⟨instrs, operand, m, emitted, word⟩ :=
    word_computes opened (expr_computes value opened settled)
  have slotted := (opened.instrs instrs).slot ⟨m⟩
  have stored := slotted.instr ⟨none, .store (.reg ⟨m⟩) operand⟩
  have done : Emits (declare id value) (site.holds code n k pending) () _ :=
    emitted.bind (newSlot_emits.bind (store_emits slotted (.reg ⟨m⟩) operand))
  refine ⟨Code.ofInstrs instrs ++ [.slot ⟨m⟩, .instr ⟨none, .store (.reg ⟨m⟩) operand⟩], m + 1, ?_,
    ?_, ?_⟩
  · simpa using done
  · simpa using stored
  · intro slots extended
    simp only [Code.slots_append, Code.slots_ofInstrs, Code.slots, List.nil_append] at extended
    obtain ⟨rest, rfl⟩ := extended
    exact .mk (word _ ⟨_, (List.append_assoc _ _ _).symm⟩) (by simp)

theorem assign_emits {var : Scoped.Var} {value : Scoped.Expr} (opened : Open code id)
    (found : var.InScope symbols (Code.slots code).length)
    (settled : value.InScope symbols (Code.slots code).length) :
    ∃ more n', Emits (assign id var value) (site.holds code n k pending) ()
        (site.holds (code ++ more) n' k pending) ∧ Open (code ++ more) id ∧
      ∀ slots, Code.slots (code ++ more) <+: slots → AssignCode slots n var value more n' := by
  obtain ⟨instrs, operand, n', emitted, word⟩ :=
    word_computes opened (expr_computes value opened settled)
  have stored := (opened.instrs instrs).instr ⟨none, .store (place (Code.slots code) var) operand⟩
  have done : Emits (assign id var value) (site.holds code n k pending) () _ :=
    (address_emits var).bind (emitted.bind
      (store_emits (opened.instrs instrs) (place (Code.slots code) var) operand))
  refine ⟨Code.ofInstrs instrs ++ [.instr ⟨none, .store (place (Code.slots code) var) operand⟩], n',
    ?_, ?_, ?_⟩
  · simpa using done
  · simpa using stored
  · intro slots extended
    have extended : Code.slots code <+: slots := by simpa [Code.slots] using extended
    rw [← place_prefix found extended]
    exact .mk (word slots extended)

theorem truth_emits {value : Scoped.Expr} (opened : Open code id)
    (settled : value.InScope symbols (Code.slots code).length) :
    Computes site code n k pending (truth id value) fun slots => TestCode slots n value :=
  truth_computes opened (expr_computes value opened settled)

theorem arms_emits {condition : Scoped.Expr} {body : List Scoped.Stmt} {tail : Scoped.Tail}
    (bodies : EmitsStmts site symbols body) (tails : EmitsTail site symbols tail)
    {targets : Option Targets} {merge : BlockId} (opened : Open code id)
    (fresh : Fresh code k pending) (conditionSettled : condition.InScope symbols (Code.slots code).length)
    (bodySettled : Scoped.Stmt.AllInScope symbols targets.isSome (Code.slots code).length body)
    (tailSettled : tail.InScope symbols targets.isSome
      ((Code.slots code).length + Scoped.Stmt.declaresAll body)) :
    Extends site code n k pending
      (arms merge id condition (fun yes => Lower.stmts targets (.falls yes) body)
        (fun no => Lower.tail targets merge no tail)) (fun _ falls reached => reached = falls)
      fun slots more reached n' k' =>
        ArmsCode slots targets merge n k condition body tail more reached n' k' := by
  have tests : Computes site code n k pending (truth id condition) _ :=
    truth_emits opened conditionSettled
  obtain ⟨instrs, operand, n₁, tested, test⟩ := tests
  have freshTest := (fresh.bare (Code.ofInstrs instrs) Code.labels_ofInstrs).bare
    [.exit (.branch operand ⟨k⟩ ⟨k + 1⟩)] rfl
  have freshYes := (freshTest.create "if.then").createNext "if.else"
  obtain ⟨inner, falls, flow, n₂, k₁, bodyEmitted, stands, first⟩ :=
    bodies (n := n₁) freshYes.opens.stands freshYes.start (by simpa [Code.slots] using bodySettled)
  have counted := (first _ (List.prefix_refl _)).slots_length
  have freshNo := (freshYes.start.append (first _ (List.prefix_refl _)).labels).bare
    (joined falls merge) labels_joined
  have tailDone : Extends site _ n₂ k₁ _ (Lower.tail targets merge ⟨k + 1⟩ tail) _ _ :=
    tails freshNo.opens freshNo.start (by simpa [Code.slots, counted] using tailSettled)
  obtain ⟨others, reached, result, n', k', tailEmitted, same, second⟩ := tailDone
  have chain : Emits (arms merge id condition (fun yes => Lower.stmts targets (.falls yes) body)
      (fun no => Lower.tail targets merge no tail)) (site.holds code n k pending) (falls || result) _ :=
    tested.bind ((create_emits "if.then").bind ((createNext_emits "if.else").bind
      ((terminate_emits (opened.instrs instrs) (.branch operand ⟨k⟩ ⟨k + 1⟩)).bind
        (freshYes.starts.bind (bodyEmitted.bind ((join_emits stands merge).bind
          (freshNo.starts.bind (tailEmitted.bind emits_pure))))))))
  refine ⟨Code.ofInstrs instrs ++ .exit (.branch operand ⟨k⟩ ⟨k + 1⟩) :: .label ⟨k⟩ "if.then" ::
    (inner ++ (joined falls merge ++ .label ⟨k + 1⟩ "if.else" :: others)), falls || reached, _, n', k',
    by simpa using chain, by rw [same], fun slots extended => ?_⟩
  have all : Code.slots code ++ (Code.slots inner ++ Code.slots others) <+: slots := by
    simpa [Code.slots] using extended
  obtain ⟨rest, rfl⟩ := all
  exact .mk (test _ (by simp)) (first _ (by simp [Code.slots])) (second _ (by simp [Code.slots]))

theorem cons_emits {stmt : Scoped.Stmt} {stmts : List Scoped.Stmt}
    (one : EmitsStmt site symbols stmt) (others : EmitsStmts site symbols stmts)
    {targets : Option Targets} (opened : Open code id) (fresh : Fresh code k pending)
    (settled : Scoped.Stmt.AllInScope symbols targets.isSome (Code.slots code).length
      (stmt :: stmts)) :
    Extends site code n k pending
      (do
        let flow ← Lower.stmt targets id stmt
        Lower.stmts targets flow stmts) Stands
      fun slots more falls n' k' =>
        StmtsCode slots targets n k true (stmt :: stmts) more falls n' k' := by
  obtain ⟨more, falls, flow, m, k₁, firstEmitted, stands, first⟩ := one (n := n) opened fresh settled.1
  have counted := (first _ (List.prefix_refl _)).slots_length
  obtain ⟨rest, falls', flow', n', k', restEmitted, standsToo, second⟩ :=
    others (n := m) stands (fresh.append (first _ (List.prefix_refl _)).labels)
      (by simpa [counted] using settled.2)
  rw [List.append_assoc] at restEmitted standsToo
  refine ⟨more ++ rest, falls', flow', n', k', firstEmitted.bind restEmitted, standsToo,
    fun slots extended => ?_⟩
  have all : Code.slots code ++ (Code.slots more ++ Code.slots rest) <+: slots := by
    simpa using extended
  obtain ⟨behind, rfl⟩ := all
  exact .cons (first _ (by simp)) (second _ (by simp))

theorem if_emits {condition : Scoped.Expr} {body : List Scoped.Stmt} {rest : Scoped.Tail}
    (bodies : EmitsStmts site symbols body) (tails : EmitsTail site symbols rest) :
    EmitsStmt site symbols (.if condition body rest) := by
  intro targets id code n k pending opened fresh settled
  rcases settled with ⟨conditionSettled, bodySettled, tailSettled⟩
  have freshMerge := fresh.create "if.end"
  have both : Extends site code n (k + 1) _ (arms ⟨k⟩ id condition _ _) _ _ :=
    arms_emits bodies tails opened freshMerge conditionSettled bodySettled
      tailSettled
  obtain ⟨more, reached, result, n', k', emitted, rfl, shape⟩ := both
  have freshEnd := freshMerge.append (shape _ (List.prefix_refl _)).labels
  cases result with
  | true =>
    have chain : Emits (Lower.stmt targets id (.if condition body rest))
        (site.holds code n k pending) (.falls ⟨k⟩) _ :=
      (create_emits "if.end").bind (emitted.bind (freshEnd.starts.bind emits_pure))
    refine ⟨more ++ [.label ⟨k⟩ "if.end"], true, .falls ⟨k⟩, n', k', by simpa using chain,
      by simpa using freshEnd.opens.stands, fun slots extended => ?_⟩
    exact .if (shape slots (by simpa [Code.slots] using extended))
  | false =>
    have chain : Emits (Lower.stmt targets id (.if condition body rest))
        (site.holds code n k pending) .leaves _ :=
      (create_emits "if.end").bind (emitted.bind (freshEnd.starts.bind
        ((terminate_emits freshEnd.opens .unreachable).bind emits_pure)))
    refine ⟨more ++ [.label ⟨k⟩ "if.end", .exit .unreachable], false, .leaves, n', k',
      by simpa using chain, trivial, fun slots extended => ?_⟩
    exact .if (shape slots (by simpa [Code.slots] using extended))

theorem while_emits {condition : Scoped.Expr} {body : List Scoped.Stmt}
    (bodies : EmitsStmts site symbols body) : EmitsStmt site symbols (.while condition body) := by
  intro targets id code n k pending opened fresh settled
  rcases settled with ⟨conditionSettled, bodySettled⟩
  have freshHead := (((fresh.bare [.exit (.jump ⟨k⟩)] rfl).create "while.cond").createNext
    "while.body").createNext "while.end"
  obtain ⟨instrs, operand, m, tested, test⟩ := truth_emits (n := n) (k := k + 3) freshHead.opens
    (by simpa [Code.slots] using conditionSettled)
  have freshBody := (freshHead.start.bare (Code.ofInstrs instrs) Code.labels_ofInstrs).bare
    [.exit (.branch operand ⟨k + 1⟩ ⟨k + 2⟩)] rfl
  have bodyDone : Extends site _ m _ _ (Lower.stmts (some ⟨⟨k + 2⟩, ⟨k⟩⟩) _ body) Stands _ :=
    bodies freshBody.opens.stands freshBody.start (by simpa [Code.slots] using bodySettled)
  obtain ⟨inner, falls, flow, n', k', bodyEmitted, stands, repeated⟩ := bodyDone
  have freshEnd := (freshBody.start.append (repeated _ (List.prefix_refl _)).labels).bare
    (joined falls ⟨k⟩) labels_joined
  have chain : Emits (Lower.stmt targets id (.while condition body))
      (site.holds code n k pending) (.falls ⟨k + 2⟩) _ :=
    (create_emits "while.cond").bind ((createNext_emits "while.body").bind
      ((createNext_emits "while.end").bind ((terminate_emits opened (.jump ⟨k⟩)).bind
        (freshHead.starts.bind (tested.bind ((terminate_emits (freshHead.opens.instrs instrs)
          (.branch operand ⟨k + 1⟩ ⟨k + 2⟩)).bind (freshBody.starts.bind (bodyEmitted.bind
            ((join_emits stands ⟨k⟩).bind (freshEnd.starts.bind emits_pure))))))))))
  refine ⟨.exit (.jump ⟨k⟩) :: .label ⟨k⟩ "while.cond" :: (Code.ofInstrs instrs ++
    .exit (.branch operand ⟨k + 1⟩ ⟨k + 2⟩) :: .label ⟨k + 1⟩ "while.body" :: (inner ++
      (joined falls ⟨k⟩ ++ [.label ⟨k + 2⟩ "while.end"]))), true, .falls ⟨k + 2⟩, n', k',
    by simpa using chain, by simpa using freshEnd.opens.stands, fun slots extended => ?_⟩
  have all : Code.slots code ++ Code.slots inner <+: slots := by
    simpa [Code.slots] using extended
  obtain ⟨rest, rfl⟩ := all
  exact .while (test _ (by simp [Code.slots])) (repeated _ (by simp [Code.slots]))

theorem for_emits {slot : Nat} {init condition update : Scoped.Expr} {var : Scoped.Var}
    {body : List Scoped.Stmt} (bodies : EmitsStmts site symbols body) :
    EmitsStmt site symbols (.for slot init condition var update body) := by
  intro targets id code n k pending opened fresh settled
  rcases settled with ⟨rfl, initSettled, conditionSettled, bodySettled, found, updateSettled⟩
  obtain ⟨first, n₁, declareEmitted, openInit, declared⟩ :=
    declare_emits (n := n) (k := k) opened initSettled
  have one := (declared _ (List.prefix_refl _)).slots_length
  have bare := (declared _ (List.prefix_refl _)).labels
  have freshHead := (((((fresh.bare first bare).bare [.exit (.jump ⟨k⟩)] rfl).create
    "for.cond").createNext "for.body").createNext "for.iter").createNext "for.end"
  obtain ⟨instrs, operand, n₂, tested, test⟩ := truth_emits (n := n₁) (k := k + 4) freshHead.opens
    (by simpa [Code.slots, one] using conditionSettled)
  have freshBody := (freshHead.start.bare (Code.ofInstrs instrs) Code.labels_ofInstrs).bare
    [.exit (.branch operand ⟨k + 1⟩ ⟨k + 3⟩)] rfl
  have bodyDone : Extends site _ n₂ _ _ (Lower.stmts (some ⟨⟨k + 3⟩, ⟨k + 2⟩⟩) _ body) Stands _ :=
    bodies freshBody.opens.stands freshBody.start
      (by simpa [Code.slots, one] using bodySettled)
  obtain ⟨inner, falls, flow, n₃, k', bodyEmitted, stands, repeated⟩ := bodyDone
  have counted := (repeated _ (List.prefix_refl _)).slots_length
  have freshNext := (freshBody.start.append (repeated _ (List.prefix_refl _)).labels).bare
    (joined falls ⟨k + 2⟩) labels_joined
  obtain ⟨next, n', assignEmitted, openNext, updated⟩ :=
    assign_emits (n := n₃) (k := k') freshNext.opens
      (by simpa [Code.slots, one, counted, Nat.add_assoc] using found)
      (by simpa [Code.slots, one, counted, Nat.add_assoc] using updateSettled)
  have freshEnd := (freshNext.start.bare next (updated _ (List.prefix_refl _)).labels).bare
    [.exit (.jump ⟨k⟩)] rfl
  have chain : Emits
      (Lower.stmt targets id (.for (Code.slots code).length init condition var update body))
      (site.holds code n k pending) (.falls ⟨k + 3⟩) _ :=
    declareEmitted.bind ((create_emits "for.cond").bind ((createNext_emits "for.body").bind
      ((createNext_emits "for.iter").bind ((createNext_emits "for.end").bind
        ((terminate_emits openInit (.jump ⟨k⟩)).bind (freshHead.starts.bind (tested.bind
          ((terminate_emits (freshHead.opens.instrs instrs) (.branch operand ⟨k + 1⟩ ⟨k + 3⟩)).bind
            (freshBody.starts.bind (bodyEmitted.bind ((join_emits stands ⟨k + 2⟩).bind
              (freshNext.starts.bind (assignEmitted.bind ((terminate_emits openNext (.jump ⟨k⟩)).bind
                (freshEnd.starts.bind emits_pure)))))))))))))))
  refine ⟨first ++ .exit (.jump ⟨k⟩) :: .label ⟨k⟩ "for.cond" :: (Code.ofInstrs instrs ++
    .exit (.branch operand ⟨k + 1⟩ ⟨k + 3⟩) :: .label ⟨k + 1⟩ "for.body" :: (inner ++
      (joined falls ⟨k + 2⟩ ++ .label ⟨k + 2⟩ "for.iter" :: (next ++
        [.exit (.jump ⟨k⟩), .label ⟨k + 3⟩ "for.end"])))), true, .falls ⟨k + 3⟩, n', k',
    by simpa using chain, by simpa using freshEnd.opens.stands, fun slots extended => ?_⟩
  have all : Code.slots code ++ (Code.slots first ++ (Code.slots inner ++ Code.slots next)) <+:
      slots := by
    simpa [Code.slots] using extended
  obtain ⟨rest, rfl⟩ := all
  exact .for (declared _ (by simp)) (test _ (by simp [Code.slots]))
    (repeated _ (by simp [Code.slots])) (updated _ (by simp [Code.slots]))

mutual

theorem stmt_emits : ∀ stmt : Scoped.Stmt, EmitsStmt site symbols stmt
  | .declare slot value => by
    intro targets id code n k pending opened _ settled
    rcases settled with ⟨rfl, settled⟩
    obtain ⟨more, n', emitted, stands, shape⟩ := declare_emits opened settled
    exact ⟨more, true, .falls id, n', k, emitted.bind emits_pure, stands,
      fun slots extended => .declare (shape slots extended)⟩
  | .assign var value => by
    intro targets id code n k pending opened _ settled
    rcases settled with ⟨found, settled⟩
    obtain ⟨more, n', emitted, stands, shape⟩ := assign_emits opened found settled
    exact ⟨more, true, .falls id, n', k, emitted.bind emits_pure, stands,
      fun slots extended => .assign (shape slots extended)⟩
  | .return value => by
    intro targets id code n k pending opened _ settled
    have done : Computes site code n k pending (word id value) _ :=
      word_computes opened (expr_computes value opened settled)
    obtain ⟨instrs, operand, n', emitted, shape⟩ := done
    have chain : Emits (Lower.stmt targets id (.return value)) (site.holds code n k pending)
        .leaves _ :=
      emitted.bind ((terminate_emits (opened.instrs instrs) (.ret operand)).bind emits_pure)
    exact ⟨Code.ofInstrs instrs ++ [.exit (.ret operand)], false, .leaves, n', k,
      by simpa using chain, trivial,
      fun slots extended => .return (shape slots (by simpa [Code.slots] using extended))⟩
  | .expr value => by
    intro targets id code n k pending opened _ settled
    have done : Computes site code n k pending (expr id value) _ :=
      expr_computes value opened settled
    obtain ⟨instrs, result, n', emitted, shape⟩ := done
    exact ⟨Code.ofInstrs instrs, true, .falls id, n', k, emitted.bind emits_pure,
      opened.instrs instrs, fun slots extended => .expr (shape slots (by simpa using extended))⟩
  | .if _ body rest => if_emits (stmts_emits body) (tail_emits rest)
  | .while _ body => while_emits (stmts_emits body)
  | .for _ _ _ _ _ body => for_emits (stmts_emits body)
  | .break => by
    intro targets id code n k pending opened _ inLoop
    obtain ⟨targets, rfl⟩ := Option.isSome_iff_exists.mp inLoop
    exact ⟨[.exit (.jump targets.exit)], false, .leaves, n, k,
      (terminate_emits opened _).bind emits_pure, trivial, fun _ _ => .break⟩
  | .continue => by
    intro targets id code n k pending opened _ inLoop
    obtain ⟨targets, rfl⟩ := Option.isSome_iff_exists.mp inLoop
    exact ⟨[.exit (.jump targets.next)], false, .leaves, n, k,
      (terminate_emits opened _).bind emits_pure, trivial, fun _ _ => .continue⟩

theorem tail_emits : ∀ tail : Scoped.Tail, EmitsTail site symbols tail
  | .none => by
    intro targets merge id code n k pending opened _ _
    exact ⟨[.exit (.jump merge)], true, true, n, k, (terminate_emits opened _).bind emits_pure, rfl,
      fun _ _ => .none⟩
  | .elseIf condition body tail => by
    intro targets merge id code n k pending opened fresh settled
    rcases settled with ⟨conditionSettled, bodySettled, tailSettled⟩
    have both : Extends site code n k pending
        (Lower.tail targets merge id (.elseIf condition body tail)) _ _ :=
      arms_emits (stmts_emits body) (tail_emits tail) opened fresh conditionSettled bodySettled
        tailSettled
    obtain ⟨more, falls, reached, n', k', emitted, same, shape⟩ := both
    exact ⟨more, falls, reached, n', k', emitted, same,
      fun slots extended => .elseIf (shape slots extended)⟩
  | .else body => by
    intro targets merge id code n k pending opened fresh settled
    obtain ⟨more, falls, flow, n', k', emitted, stands, shape⟩ :=
      stmts_emits body (n := n) opened.stands fresh settled
    have chain : Emits (Lower.tail targets merge id (.else body)) (site.holds code n k pending)
        falls _ :=
      emitted.bind (join_emits stands merge)
    exact ⟨more ++ joined falls merge, falls, falls, n', k', by simpa using chain, rfl,
      fun slots extended => .else (shape slots (by simpa using extended))⟩

theorem stmts_emits : ∀ stmts : List Scoped.Stmt, EmitsStmts site symbols stmts
  | [] => by
    intro targets falls flow code n k pending stands _ _
    refine ⟨[], falls, flow, n, k, ?_, ?_, fun _ _ => .nil⟩
    · rw [List.append_nil]
      exact emits_pure
    · rwa [List.append_nil]
  | stmt :: stmts => by
    intro targets falls flow code n k pending stands fresh settled
    have one := stmt_emits stmt
    have others := stmts_emits stmts
    cases flow with
    | falls id =>
      cases falls with
      | false => cases stands
      | true =>
        obtain ⟨more, falls, flow, n', k', emitted, standsToo, shape⟩ :=
          cons_emits (n := n) one others stands fresh settled
        exact ⟨more, falls, flow, n', k', emits_pure.bind emitted, standsToo, shape⟩
    | leaves =>
      cases falls with
      | true => cases stands
      | false =>
        have freshDead := fresh.create "dead"
        obtain ⟨more, falls, flow, n', k', emitted, standsToo, shape⟩ :=
          cons_emits (n := n) one others freshDead.opens freshDead.start
            (by simpa [Code.slots] using settled)
        have chain : Emits (Lower.stmts targets .leaves (stmt :: stmts))
            (site.holds code n k pending) flow _ :=
          (create_emits "dead").bind (freshDead.starts.bind (emits_pure.bind emitted))
        refine ⟨.label ⟨k⟩ "dead" :: more, falls, flow, n', k', by simpa using chain,
          by simpa using standsToo, fun slots extended => ?_⟩
        cases shape slots (by simpa [Code.slots] using extended) with
        | cons first rest => exact .dead first rest

end

end OliCompiler.Lower
