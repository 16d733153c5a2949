import OliCompiler.Proofs.Grammar.Programs
import OliCompiler.Proofs.Layers.Readers
import Mathlib.Logic.Function.Iterate

/-!
Climbing by precedence reads as the levels do. A loop that takes operators of at least some precedence is
the loop of the next precedence with a fold of this one's own operators behind it.
-/

namespace OliCompiler

/-- The cursor before a token by its place in a list of tokens, or before the end of the file. -/
def Cursor.at (tokens : List Token) (place : Nat) : Cursor :=
  Cursor.advance^[place] (.ofTokens tokens)

namespace Cursor

variable {cursor : Cursor}

theorem Proper.advance (proper : cursor.Proper) : cursor.advance.Proper := by
  obtain ⟨passed, ahead, eof⟩ := cursor
  cases ahead with
  | nil => exact proper
  | cons token ahead => exact ⟨proper.eof, (List.forall_mem_cons.mp proper.ahead).2⟩

theorem at_proper (tokens : List Token) (place : Nat) : (Cursor.at tokens place).Proper := by
  induction place with
  | zero => exact ofTokens_proper tokens
  | succ place ih =>
    rw [Cursor.at, Function.iterate_succ_apply']
    exact ih.advance

theorem Proper.length_advance (proper : cursor.Proper) (solid : cursor.current.kind ≠ .endOfFile) :
    cursor.advance.ahead.length + 1 = cursor.ahead.length := by
  have passes := (proper.passes solid).length
  rw [List.length_singleton] at passes
  omega

end Cursor

namespace Parser

open Cursor Grammar

variable {α β : Type} {cursor middle cursor' : Cursor} {n budget rounds least : Nat} {left value : Expr}
  {op : BinaryOp} {joins : BinaryOp → Bool} {inner operand : Parser Expr}

theorem bind_error {reader : Parser α} {next : α → Parser β} {error : ParseError}
    (fails : reader cursor = .error error cursor') :
    (reader >>= next) cursor = .error error cursor' := by
  simp only [bind, EStateM.bind, fails]

/-- Readers that begin alike and go on alike behind what they have read are alike. -/
theorem bind_congr_at {reader reader' : Parser α} {next next' : α → Parser β}
    (begins : reader cursor = reader' cursor')
    (goesOn : ∀ value middle, reader cursor = .ok value middle → next value middle = next' value middle) :
    (reader >>= next) cursor = (reader' >>= next') cursor' := by
  cases reads : reader cursor with
  | ok value middle => rw [bind_eq reads, bind_eq (begins ▸ reads), goesOn value middle reads]
  | error error middle => rw [bind_error reads, bind_error (begins ▸ reads)]

/-- Whether a reader reads as climbing from a precedence does, where fewer than `n` tokens are ahead. -/
def Agrees (n least : Nat) (reader : Parser Expr) : Prop :=
  ∀ ⦃cursor : Cursor⦄ ⦃budget : Nat⦄, cursor.Proper → cursor.ahead.length < n →
    3 * cursor.ahead.length + 2 ≤ budget → exprWithin least budget cursor = reader cursor

/-- What is read with a sufficient budget passes at least one token and stops rightly. -/
theorem exprWithin_passes (proper : cursor.Proper) (bound : least ≤ 3)
    (enough : 3 * cursor.ahead.length + 2 ≤ budget)
    (reads : exprWithin least budget cursor = .ok value cursor') :
    cursor'.Proper ∧ cursor'.ahead.length < cursor.ahead.length ∧ Stops least cursor' := by
  obtain ⟨tokens, passes, form, stops⟩ := (soundWithin budget).expr proper bound enough reads
  have shorter := passes.length
  have positive := form.length_pos
  exact ⟨passes.proper proper, by omega, stops⟩

namespace Layered

theorem fold_stops (stops : ∀ op, cursor.current.kind = .operator op → joins op = false) :
    foldWithin joins operand left rounds cursor = .ok left cursor := by
  cases rounds with
  | zero => rfl
  | succ rounds =>
    rw [foldWithin, peek_bind]
    cases ahead : cursor.current.kind.operator? with
    | none => rfl
    | some op =>
      have loose := stops op (Token.Kind.operator?_eq_some.mp ahead)
      simp only [loose]
      rfl

theorem fold_goes (ahead : cursor.current.kind = .operator op) (joined : joins op = true) :
    foldWithin joins operand left (rounds + 1) cursor =
      (operand >>= fun right => foldWithin joins operand (.binary op left right) rounds)
        cursor.advance := by
  have known : cursor.current.kind.operator? = some op := Token.Kind.operator?_eq_some.mpr ahead
  rw [foldWithin, peek_bind, known]
  simp only [if_pos joined]
  rfl

/-- Where a loop stops at once, the loop of the next precedence does, and so does the fold. -/
theorem climb_stopped (own : ∀ op, joins op = true ↔ levelOf op = least) (stops : Stops least cursor) :
    climbWithin least left budget cursor =
      (climbWithin (least + 1) left budget >>= fun value => foldWithin joins operand value rounds)
        cursor := by
  have tighter : Stops (least + 1) cursor := fun op ahead => Nat.lt_succ_of_lt (stops op ahead)
  rw [climb_stops stops, bind_eq (climb_stops tighter), fold_stops]
  intro op ahead
  exact Bool.eq_false_iff.mpr fun joined => absurd ((own op).mp joined) (Nat.ne_of_lt (stops op ahead))

/-- A loop is that of the next precedence and then the fold of its own operators: where a tighter
operator is ahead the former takes it, and where one of its own is ahead the former has stopped. -/
theorem climb_eq_fold (own : ∀ op, joins op = true ↔ levelOf op = least) (bound : least + 1 ≤ 3)
    (agrees : Agrees n (least + 1) operand) (proper : cursor.Proper) (few : cursor.ahead.length ≤ n)
    (enough : 3 * cursor.ahead.length ≤ budget) (many : cursor.ahead.length ≤ rounds) :
    climbWithin least left budget cursor =
      (climbWithin (least + 1) left budget >>= fun value => foldWithin joins operand value rounds)
        cursor := by
  induction budget generalizing cursor left rounds with
  | zero =>
    refine climb_stopped own fun op ahead => ?_
    rw [proper.current_of_nil (List.length_eq_zero_iff.mp (by omega))] at ahead
    cases ahead
  | succ budget ih =>
    by_cases stops : Stops least cursor
    · exact climb_stopped own stops
    · obtain ⟨op, ahead, tight⟩ : ∃ op, cursor.current.kind = .operator op ∧ least ≤ levelOf op := by
        simpa [Stops] using stops
      have shorter := proper.length_advance (by simp [ahead])
      have right := levelOf_le op
      rcases Nat.eq_or_lt_of_le tight with rfl | tighter
      · have stops' : Stops (levelOf op + 1) cursor := by
          intro op' ahead'
          rw [ahead] at ahead'
          cases ahead'
          exact Nat.lt_succ_self _
        obtain ⟨rounds, rfl⟩ := Nat.exists_eq_add_one_of_ne_zero (show rounds ≠ 0 by omega)
        rw [climb_goes ahead tight, bind_eq (climb_stops stops'), fold_goes ahead ((own op).mpr rfl)]
        refine bind_congr_at (agrees proper.advance (by omega) (by omega)) fun value behind reads => ?_
        obtain ⟨properBehind, less, stopsBehind⟩ :=
          exprWithin_passes proper.advance bound (by omega) reads
        rw [ih properBehind (by omega) (by omega) (show _ ≤ rounds by omega),
          bind_eq (climb_stops stopsBehind)]
      · rw [climb_goes ahead tight, bind_congr_at (climb_goes ahead tighter) fun _ _ _ => rfl, bind_assoc]
        refine bind_congr_at rfl fun value behind reads => ?_
        obtain ⟨properBehind, less, _⟩ :=
          exprWithin_passes proper.advance (Nat.succ_le_succ right) (by omega) reads
        exact ih properBehind (by omega) (by omega) (by omega)

/-- A level over a reader of the next precedence reads as climbing from its own. -/
theorem level_agrees (own : ∀ op, joins op = true ↔ levelOf op = least) (bound : least + 1 ≤ 3)
    (agrees : Agrees n (least + 1) operand) : Agrees n least (level joins operand) := by
  intro cursor budget proper few enough
  obtain ⟨budget, rfl⟩ := Nat.exists_eq_add_one_of_ne_zero (show budget ≠ 0 by omega)
  have reads : level joins operand cursor =
      (Parser.exprWithin (least + 1) (budget + 1) >>= fun left =>
        foldWithin joins operand left cursor.ahead.length) cursor := by
    rw [level, get_bind]
    exact bind_congr_at (agrees proper few enough).symm fun _ _ _ => rfl
  rw [reads, Parser.exprWithin, Parser.exprWithin, bind_assoc]
  refine bind_congr_at rfl fun left middle first => ?_
  obtain ⟨tokens, passes, _⟩ := (soundWithin budget).operand proper (by omega) first
  have shorter := passes.length
  exact climb_eq_fold own bound agrees (passes.proper proper) (by omega) (by omega) (by omega)

theorem arguments_agree (agrees : Agrees n 0 inner) (proper : cursor.Proper)
    (few : cursor.ahead.length < n) (enough : 3 * cursor.ahead.length + 3 ≤ budget)
    (many : cursor.ahead.length < rounds) :
    Parser.argumentsWithin budget cursor = argumentsWithin inner rounds cursor := by
  induction budget generalizing cursor rounds with
  | zero => omega
  | succ budget ih =>
    obtain ⟨rounds, rfl⟩ := Nat.exists_eq_add_one_of_ne_zero (show rounds ≠ 0 by omega)
    rw [Parser.argumentsWithin, argumentsWithin, check_bind, check_bind]
    by_cases closes : cursor.current.kind = .closeParen
    · rw [decide_eq_true closes]
      rfl
    · rw [decide_eq_false closes, if_neg Bool.false_ne_true, if_neg Bool.false_ne_true]
      refine bind_congr_at (agrees proper few (by omega)) fun arg middle reads => ?_
      obtain ⟨properMiddle, less, _⟩ := exprWithin_passes proper (Nat.zero_le 3) (by omega) reads
      refine bind_congr_at rfl fun separated behind consumed => ?_
      cases separated with
      | false => rfl
      | true =>
        rcases consume_eq .comma (by decide) properMiddle with ⟨_, one, known⟩ | ⟨_, known⟩
        · obtain ⟨_, rfl⟩ := EStateM.Result.ok.inj (consumed.symm.trans known)
          have lessToo := one.length
          refine bind_congr_at (ih properMiddle.advance (by omega) (by omega) (by omega)) ?_
          exact fun _ _ _ => rfl
        · cases consumed.symm.trans known

/-- An atom is read as an operand is, if what stands in its parentheses is. -/
theorem atom_agrees (agrees : Agrees n 0 inner) : Agrees (n + 1) 3 (atom inner) := by
  intro cursor budget proper few enough
  obtain ⟨budget, rfl⟩ := Nat.exists_eq_add_of_le' (show 2 ≤ budget by omega)
  have alone : Parser.exprWithin 3 (budget + 2) cursor = operandWithin (budget + 1) cursor := by
    rw [Parser.exprWithin]
    cases reads : operandWithin (budget + 1) cursor with
    | ok value middle => rw [bind_eq reads, climb_stops (stops_of_gt (Nat.le_refl 3))]
    | error error middle => rw [bind_error reads]
  rw [alone, operandWithin, atom, peek_bind, peek_bind]
  cases ahead : cursor.current.kind with
  | openParen =>
    have shorter := proper.length_advance (by simp [ahead])
    simp only [advance_bind]
    exact bind_congr_at (agrees proper.advance (by omega) (by omega)) fun _ _ _ => rfl
  | identifier =>
    refine bind_congr_at rfl fun name middle first => ?_
    obtain ⟨token, passes, _⟩ := (ident_ok proper).mp first
    have properMiddle := passes.proper proper
    have less := passes.length
    refine bind_congr_at rfl fun called behind consumed => ?_
    cases called with
    | false => rfl
    | true =>
      rcases consume_eq .openParen (by decide) properMiddle with ⟨_, one, known⟩ | ⟨_, known⟩
      · obtain ⟨_, rfl⟩ := EStateM.Result.ok.inj (consumed.symm.trans known)
        have lessToo := one.length
        rw [if_pos rfl, if_pos rfl, get_bind]
        refine bind_congr_at ?_ fun _ _ _ => rfl
        exact arguments_agree agrees properMiddle.advance (by simp at less lessToo; omega)
          (by simp at less lessToo; omega) (Nat.lt_succ_self _)
      · cases consumed.symm.trans known
  | _ => rfl

theorem joinsAtoms_iff (op : BinaryOp) : joinsAtoms op = true ↔ levelOf op = 2 := by
  rcases op with op | op <;> cases op <;> decide

theorem joinsTerms_iff (op : BinaryOp) : joinsTerms op = true ↔ levelOf op = 1 := by
  rcases op with op | op <;> cases op <;> decide

theorem joinsSums_iff (op : BinaryOp) : joinsSums op = true ↔ levelOf op = 0 := by
  rcases op with op | op <;> cases op <;> decide

theorem comparison_agrees (agrees : Agrees n 0 inner) : Agrees (n + 1) 0 (comparison inner) :=
  level_agrees joinsSums_iff (by decide) <| level_agrees joinsTerms_iff (by decide) <|
    level_agrees joinsAtoms_iff (by decide) <| atom_agrees agrees

/-- Within a depth the layered reader reads as climbing does, where fewer tokens than that are ahead. -/
theorem exprWithin_agrees (depth : Nat) : Agrees depth 0 (exprWithin depth) := by
  induction depth with
  | zero => exact fun _ _ _ few _ => absurd few (Nat.not_lt_zero _)
  | succ depth ih => exact comparison_agrees ih

theorem expr_agrees : Agrees n 0 expr := by
  intro cursor budget proper _ enough
  rw [expr, get_bind]
  exact exprWithin_agrees _ proper (Nat.lt_succ_self _) enough

end Layered

/-- Wherever a cursor stands in a list of tokens, climbing by precedence gives the tree or the fault, and
leaves the cursor, that the levels do; and these read by themselves what stands in the atoms. -/
theorem expr_eq_layered (tokens : List Token) (place : Nat) :
    expr (.at tokens place) = Layered.expr (.at tokens place) ∧
      Layered.expr (.at tokens place) = Layered.comparison Layered.expr (.at tokens place) := by
  have proper := at_proper tokens place
  generalize Cursor.at tokens place = cursor at proper ⊢
  have reads : expr cursor = Layered.expr cursor :=
    Layered.expr_agrees proper (Nat.lt_succ_self _) (Nat.le_refl _)
  refine ⟨reads, reads.symm.trans ?_⟩
  exact Layered.comparison_agrees Layered.expr_agrees proper (Nat.lt_succ_self _) (Nat.le_refl _)

end Parser

end OliCompiler
